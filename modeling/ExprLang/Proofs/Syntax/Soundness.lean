import ExprLang.Proofs.Syntax.Completeness

/-!
# The parser accepts only the grammar

Whatever the parser has passed when it succeeds stands for the tree that it gives. When it fails
because the text stops, what it has passed can be completed with a few words.
-/

namespace ExprLang

/-! ## Places among the tokens -/

/-- The cursor stands behind some of all tokens, and knows what was wrong with them. -/
structure Stands (all before : List Token) (cursor : Cursor) : Prop where
  tokens : all = before ++ cursor.current :: cursor.ahead
  errors : cursor.errors = (before ++ [cursor.current]).filterMap Token.error?

def Ended (all : List Token) : Prop :=
  ∃ front last, all = front ++ [last] ∧ last.lexeme = .endOfInput ∧
    ∀ token ∈ front, token.lexeme ≠ .endOfInput

theorem Token.not_atEnd_of_error? {token : Token} {error : SyntaxError}
    (wrong : token.error? = some error) : error.isAtEnd = false := by
  rw [error?] at wrong
  split at wrong <;> cases wrong <;> rfl

namespace Stands

variable {all before : List Token} {cursor : Cursor}

theorem length (stands : Stands all before cursor) :
    all.length = before.length + 1 + cursor.ahead.length := by
  rw [stands.tokens]
  simp only [List.length_append, List.length_cons]
  omega

theorem last_of_endOfInput (stands : Stands all before cursor) (ended : Ended all)
    (finished : cursor.current.lexeme = .endOfInput) : all = before ++ [cursor.current] := by
  obtain ⟨front, last, split, _, others⟩ := ended
  have equal := stands.tokens
  rcases List.eq_nil_or_concat cursor.ahead with nil | ⟨ahead, final, concat⟩
  · rw [nil] at equal
    exact equal
  · rw [concat, split, List.concat_eq_append, ← List.cons_append, ← List.append_assoc] at equal
    have same := (List.append_inj' equal rfl).1
    exact absurd finished (others _ (by rw [same]; simp))

theorem advance (stands : Stands all before cursor) (ended : Ended all)
    (more : cursor.current.lexeme ≠ .endOfInput) :
    Stands all (before ++ [cursor.current]) cursor.advance := by
  obtain ⟨current, ahead, errors⟩ := cursor
  cases ahead with
  | nil =>
      obtain ⟨front, last, split, isLast, _⟩ := ended
      have equal := stands.tokens
      rw [split] at equal
      have same := (List.append_inj' equal rfl).2
      cases same
      exact absurd isLast more
  | cons next rest =>
      refine ⟨?_, ?_⟩
      · rw [stands.tokens]
        simp [Cursor.advance]
      · have known := stands.errors
        simp only at known
        have one : List.filterMap Token.error? [next] = next.error?.toList := by
          cases wrong : next.error? <;> simp [wrong]
        simp only [Cursor.advance, known]
        rw [← one, ← List.filterMap_append]

theorem not_atEnd_of_errors (stands : Stands all before cursor) {error : SyntaxError}
    (member : error ∈ cursor.errors) : error.isAtEnd = false := by
  rw [stands.errors] at member
  obtain ⟨token, _, wrong⟩ := List.mem_filterMap.mp member
  exact Token.not_atEnd_of_error? wrong

theorem blame_emptyBlock (stands : Stands all before cursor) :
    (cursor.blame .emptyBlock).first.isAtEnd = false := by
  rw [Cursor.blame]
  cases wrong : cursor.errors with
  | nil => rfl
  | cons first later => exact stands.not_atEnd_of_errors (by simp [wrong])

/-- A failure that is due to the end of input happens at the end, and nothing was wrong before. -/
theorem blame_atEnd (stands : Stands all before cursor) (ended : Ended all)
    {cause : SyntaxError.Cause}
    (here : (∃ what, cause = .expected what cursor.current.lexeme) ∨
      cause = .unexpected cursor.current.lexeme)
    (atEnd : (cursor.blame cause).first.isAtEnd = true) :
    (∃ last, all = before ++ [last]) ∧ Clean all := by
  rw [Cursor.blame] at atEnd
  cases wrong : cursor.errors with
  | cons first later =>
      simp only [wrong] at atEnd
      rw [stands.not_atEnd_of_errors (by simp [wrong])] at atEnd
      cases atEnd
  | nil =>
      simp only [wrong] at atEnd
      have finished : cursor.current.lexeme = .endOfInput := by
        rcases here with ⟨what, rfl⟩ | rfl
        all_goals
          simp only [SyntaxError.isAtEnd] at atEnd
          split at atEnd <;> simp_all
      have last := stands.last_of_endOfInput ended finished
      refine ⟨⟨_, last⟩, ?_⟩
      intro token member
      rw [last] at member
      have none := stands.errors.symm.trans wrong
      exact List.filterMap_eq_nil_iff.mp none token member

end Stands

/-! ## Outcomes -/

namespace Grammar

open ExprLang.Parser

def zero : Lexeme := .integer "0" (some 0)

def vocabulary : List Lexeme :=
  [zero, .identifier "x", .identifier "Int", .keyword .fn, .keyword .inWord, .keyword .elseWord,
   .mark .assign, .mark .less, .mark .greater, .mark .colon, .mark .leftParen, .mark .rightParen,
   .mark .leftBrace, .mark .rightBrace, .mark .rightBracket]

def Completable (goal : List Token → α → Prop) (tokens : List Token) : Prop :=
  ∃ words, (∀ word ∈ words, word ∈ vocabulary) ∧
    ∀ more, more.map Token.lexeme = words → ∃ result, goal (tokens ++ more) result

/-- What a parser does that is to pass tokens with a result: if it succeeds, it has done so, and
if the text stops too early, nothing is wrong with the text, and it can be completed. -/
def Outcome (all before : List Token) (goal : List Token → α → Prop) :
    Except SyntaxErrors (α × Cursor) → Prop
  | .ok (result, later) => ∃ tokens, Stands all (before ++ tokens) later ∧ goal tokens result
  | .error errors => errors.first.isAtEnd = true →
    ∃ tokens last, all = before ++ tokens ++ [last] ∧ Clean all ∧ Completable goal tokens

section Rules

variable {all before : List Token} {cursor : Cursor} {goal : List Token → α → Prop}

theorem Completable.mono {other : List Token → α → Prop} {tokens : List Token}
    (completable : Completable goal tokens)
    (stronger : ∀ tokens result, goal tokens result → other tokens result) :
    Completable other tokens := by
  obtain ⟨words, known, completes⟩ := completable
  refine ⟨words, known, fun more same => ?_⟩
  obtain ⟨result, reached⟩ := completes more same
  exact ⟨result, stronger _ _ reached⟩

theorem Outcome.mono {other : List Token → α → Prop}
    {answer : Except SyntaxErrors (α × Cursor)} (outcome : Outcome all before goal answer)
    (stronger : ∀ tokens result, goal tokens result → other tokens result) :
    Outcome all before other answer := by
  cases answer with
  | ok answer =>
      obtain ⟨tokens, stands, reached⟩ := outcome
      exact ⟨tokens, stands, stronger _ _ reached⟩
  | error errors =>
      intro atEnd
      obtain ⟨tokens, last, split, clean, completable⟩ := outcome atEnd
      exact ⟨tokens, last, split, clean, completable.mono stronger⟩

theorem outcome_pure (stands : Stands all before cursor) {result : α} (reached : goal [] result) :
    Outcome all before goal ((pure result : Parser α) cursor) :=
  ⟨[], by rwa [List.append_nil], reached⟩

theorem Outcome.append {tokens : List Token} {answer : Except SyntaxErrors (α × Cursor)}
    (outcome : Outcome all (before ++ tokens) (fun more => goal (tokens ++ more)) answer) :
    Outcome all before goal answer := by
  cases answer with
  | ok answer =>
      obtain ⟨more, stands, reached⟩ := outcome
      exact ⟨tokens ++ more, by rwa [← List.append_assoc], reached⟩
  | error errors =>
      intro atEnd
      obtain ⟨more, last, split, clean, words, known, completes⟩ := outcome atEnd
      refine ⟨tokens ++ more, last, by rw [split]; simp, clean, words, known, fun rest same => ?_⟩
      rw [List.append_assoc]
      exact completes rest same

/-- One parser after the other. If the first one fails, `words` make up for the second one. -/
theorem outcome_bind {first : Parser β} {second : β → Parser α} {middle : List Token → β → Prop}
    (outcome : Outcome all before middle (first cursor)) (words : List Lexeme)
    (known : ∀ word ∈ words, word ∈ vocabulary)
    (default : ∀ tokens result, middle tokens result → ∀ more, more.map Token.lexeme = words →
      ∃ final, goal (tokens ++ more) final)
    (behind : ∀ tokens result later, first cursor = .ok (result, later) →
      Stands all (before ++ tokens) later → middle tokens result →
        Outcome all (before ++ tokens) (fun more => goal (tokens ++ more)) (second result later)) :
    Outcome all before goal ((first >>= second) cursor) := by
  cases ended : first cursor with
  | ok answer =>
      obtain ⟨result, later⟩ := answer
      rw [ended] at outcome
      obtain ⟨tokens, stands, reached⟩ := outcome
      rw [bind_ok ended]
      exact (behind tokens result later ended stands reached).append
  | error errors =>
      rw [bind_error ended]
      rw [ended] at outcome
      intro atEnd
      obtain ⟨tokens, last, split, clean, inner, listed, completes⟩ := outcome atEnd
      refine ⟨tokens, last, split, clean, inner ++ words, ?_, fun more same => ?_⟩
      · intro word member
        exact (List.mem_append.mp member).elim (listed word) (known word)
      · obtain ⟨left, right, rfl, one, other⟩ := List.map_eq_append_iff.mp same
        obtain ⟨result, reached⟩ := completes left one
        rw [← List.append_assoc]
        exact default _ _ reached right other

theorem outcome_map {first : Parser β} {build : β → α} {middle : List Token → β → Prop}
    (outcome : Outcome all before middle (first cursor))
    (put : ∀ tokens result, middle tokens result → goal tokens (build result)) :
    Outcome all before goal ((first >>= fun result => pure (build result)) cursor) := by
  refine outcome_bind outcome [] (by simp) ?_ ?_
  · intro tokens result reached more same
    rw [List.map_eq_nil_iff.mp same, List.append_nil]
    exact ⟨_, put tokens result reached⟩
  · intro tokens result later _ stands reached
    exact outcome_pure stands (by simpa using put tokens result reached)

variable (stands : Stands all before cursor) (ended : Ended all)

include stands ended

theorem outcome_failExpecting {what : String} (completable : Completable goal []) :
    Outcome all before goal ((failExpecting what : Parser α) cursor) := by
  intro atEnd
  obtain ⟨⟨last, split⟩, clean⟩ := stands.blame_atEnd ended (.inl ⟨what, rfl⟩) atEnd
  exact ⟨[], last, by rw [split, List.append_nil], clean, completable⟩

theorem outcome_failUnexpected (completable : Completable goal []) :
    Outcome all before goal ((failUnexpected : Parser α) cursor) := by
  intro atEnd
  obtain ⟨⟨last, split⟩, clean⟩ := stands.blame_atEnd ended (.inr rfl) atEnd
  exact ⟨[], last, by rw [split, List.append_nil], clean, completable⟩

theorem outcome_advance {second : Unit → Parser α} (more : cursor.current.lexeme ≠ .endOfInput)
    (behind : ∀ later, Stands all (before ++ [cursor.current]) later →
      Outcome all (before ++ [cursor.current]) (fun more => goal (cursor.current :: more))
        (second () later)) : Outcome all before goal ((advance >>= second) cursor) := by
  rw [advance_bind]
  exact Outcome.append (behind _ (stands.advance ended more))

theorem outcome_expect {wanted : Lexeme} {what : String} {second : Unit → Parser α}
    (completable : Completable goal []) (some : wanted ≠ .endOfInput)
    (behind : ∀ later, cursor.current.lexeme = wanted →
      Stands all (before ++ [cursor.current]) later →
        Outcome all (before ++ [cursor.current]) (fun more => goal (cursor.current :: more))
          (second () later)) :
    Outcome all before goal ((expect wanted what >>= second) cursor) := by
  by_cases fine : cursor.errors = [] ∧ cursor.current.lexeme = wanted
  · rw [bind_ok (expect_ok what fine.1 fine.2)]
    exact Outcome.append (behind _ fine.2 (stands.advance ended (fine.2 ▸ some)))
  · rw [not_and_or] at fine
    rw [bind_error (expect_error what fine)]
    exact outcome_failExpecting stands ended completable

theorem outcome_identifier {what : String} {second : String → Parser α}
    (completable : Completable goal [])
    (behind : ∀ name later, cursor.current.lexeme = .identifier name →
      Stands all (before ++ [cursor.current]) later →
        Outcome all (before ++ [cursor.current]) (fun more => goal (cursor.current :: more))
          (second name later)) :
    Outcome all before goal ((identifier what >>= second) cursor) := by
  by_cases fine : cursor.errors = [] ∧ ∃ name, cursor.current.lexeme = .identifier name
  · obtain ⟨clean, name, here⟩ := fine
    rw [bind_ok (identifier_ok what clean here)]
    exact Outcome.append (behind name _ here (stands.advance ended (by simp [here])))
  · rw [not_and_or, not_exists] at fine
    rw [bind_error (identifier_error what fine)]
    exact outcome_failExpecting stands ended completable

end Rules

/-! ## Tiers -/

/-- The weakest tier that binds at least as tightly as a number says. -/
def Tier.ofFloor : Nat → Tier
  | 0 | 1 | 2 => comparison
  | 3 => sum
  | 4 => product
  | _ => subscript

theorem Tier.rank_ofFloor_le {floor : Nat} {tier : Tier} (low : floor ≤ tier.rank) :
    (ofFloor floor).rank ≤ tier.rank := by
  cases tier <;> simp only [rank] at low <;> interval_cases floor <;> decide

theorem Derives.weaken {tier other : Tier} {tokens : List Token} {tree : Expr Position}
    (derives : Derives (.operation tier) tokens [tree]) (weaker : other.rank ≤ tier.rank) :
    Derives (.operation other) tokens [tree] := by
  cases tier <;> cases other <;> simp only [Tier.rank] at weaker <;> first
    | omega
    | exact derives
    | exact .tighter derives
    | exact .tighter (.tighter derives)
    | exact .tighter (.tighter (.tighter derives))

theorem listed_of_operator? {lexeme : Lexeme} {operator : Operator}
    (found : operator? lexeme = some operator) :
    ∃ (mark : Mark) (tier : Tier), lexeme = .mark mark ∧ mark.text = operator.symbol ∧
      operator ∈ tier.operators ∧ tier.rank = precedence operator ∧
      Tier.ofFloor (precedence operator + 1) = tier.tighter ∧ tier ≠ .subscript := by
  cases lexeme with
  | mark mark =>
      refine ⟨mark, ?_⟩
      cases mark with
      | plus | minus =>
          cases found
          exact ⟨.sum, rfl, by decide, by decide, rfl, rfl, by decide⟩
      | asterisk | slash =>
          cases found
          exact ⟨.product, rfl, by decide, by decide, rfl, rfl, by decide⟩
      | equal | notEqual | less | greater | lessEqual | greaterEqual =>
          cases found
          exact ⟨.comparison, rfl, by decide, by decide, rfl, rfl, by decide⟩
      | _ => cases found
  | _ => cases found

theorem operationFrom_stops {fuel floor : Nat} {left tree : Expr Position}
    {cursor later : Cursor} (ended : operationFrom fuel floor left cursor = .ok (tree, later)) :
    later.current.lexeme ≠ .mark .leftBracket ∧
      ∀ operator, operator? later.current.lexeme = some operator →
        precedence operator < floor := by
  induction fuel generalizing left cursor with
  | zero => cases ended
  | succ fuel induction =>
      by_cases bracket : cursor.current.lexeme = .mark .leftBracket
      · rw [operationFrom, position_bind, lexeme_bind] at ended
        simp only [bracket] at ended
        obtain ⟨_, _, _, ended⟩ := bind_eq_ok.mp ended
        obtain ⟨_, _, _, ended⟩ := bind_eq_ok.mp ended
        obtain ⟨_, _, _, ended⟩ := bind_eq_ok.mp ended
        exact induction ended
      · by_cases loose : ∀ operator, operator? cursor.current.lexeme = some operator →
          precedence operator < floor
        · rw [operationFrom_ends bracket loose] at ended
          cases ended
          exact ⟨bracket, loose⟩
        · simp only [not_forall, not_lt] at loose
          obtain ⟨operator, here, tight⟩ := loose
          rw [operationFrom_operator here tight, advance_bind] at ended
          obtain ⟨_, _, _, ended⟩ := bind_eq_ok.mp ended
          exact induction ended

theorem operation_stops {fuel floor : Nat} {tree : Expr Position} {cursor later : Cursor}
    (ended : operation fuel floor cursor = .ok (tree, later)) :
    later.current.lexeme ≠ .mark .leftBracket ∧
      ∀ operator, operator? later.current.lexeme = some operator →
        precedence operator < floor := by
  cases fuel with
  | zero => cases ended
  | succ fuel =>
      rw [operation] at ended
      obtain ⟨_, _, _, ended⟩ := bind_eq_ok.mp ended
      exact operationFrom_stops ended

/-! ## Default completions -/

theorem derives_zero {token : Token} (digit : token.lexeme = zero) :
    Derives .expression [token] [.integer token.position token.lexeme.value] :=
  have operand : Derives (.operation .subscript) [token] _ := .operand (.integer digit)
  .binding (operand.weaken (by decide))

def defaultBlock : List Lexeme :=
  [.mark .leftBrace, zero, .mark .rightBrace]

theorem derives_defaultBlock {more : List Token} (same : more.map Token.lexeme = defaultBlock) :
    ∃ tree, Derives .block more [tree] := by
  simp only [defaultBlock, List.map_eq_cons_iff, List.map_eq_nil_iff] at same
  obtain ⟨_, _, rfl, opens, _, _, rfl, digit, _, _, rfl, closes, rfl⟩ := same
  exact ⟨_, .block opens (.last (derives_zero digit)) closes⟩

def defaultElse : List Lexeme :=
  .keyword .elseWord :: defaultBlock

theorem derives_defaultElse {more : List Token} (same : more.map Token.lexeme = defaultElse) :
    ∃ between right tree, more = between :: right ∧ between.lexeme = .keyword .elseWord ∧
      Derives .block right [tree] := by
  obtain ⟨between, right, rfl, word, same⟩ := List.map_eq_cons_iff.mp same
  obtain ⟨tree, derives⟩ := derives_defaultBlock same
  exact ⟨between, right, tree, rfl, word, derives⟩

/-! ## Expressions -/

def Itemized (closing : Mark) (atFirst : Bool) (tokens : List Token)
    (trees : List (Expr Position)) : Prop :=
  ∃ inner close, tokens = inner ++ [close] ∧ close.lexeme = .mark closing ∧
    Derives (if atFirst then .arguments else .others) inner trees

def Sequenced (closing : Lexeme) (tokens : List Token) (tree : Expr Position) : Prop :=
  ∃ inner tail, tokens = inner ++ tail ∧ Derives .sequence inner [tree] ∧
    (closing = .endOfInput ∧ tail = [] ∨
      closing ≠ .endOfInput ∧ ∃ close, tail = [close] ∧ close.lexeme = closing)

structure Level (all : List Token) (fuel : Nat) : Prop where
  expression : ∀ {before : List Token} {cursor : Cursor}, Stands all before cursor →
    8 * all.length + 4 < fuel + 8 * (before.length + 1) →
      Outcome all before (fun tokens tree => Derives .expression tokens [tree])
        (expression fuel cursor)
  operation : ∀ {before : List Token} {cursor : Cursor} (floor : Nat), floor ≤ 5 →
    Stands all before cursor → 8 * all.length + 3 < fuel + 8 * (before.length + 1) →
      Outcome all before
        (fun tokens tree => Derives (.operation (.ofFloor floor)) tokens [tree])
        (operation fuel floor cursor)
  operationFrom : ∀ {before : List Token} {cursor : Cursor} {floor : Nat} {tier : Tier}
    {front : List Token} {left : Expr Position}, floor ≤ tier.rank →
    Stands all before cursor → 8 * all.length + 1 < fuel + 8 * (before.length + 1) →
    Derives (.operation tier) front [left] →
    (tier ≠ .subscript → cursor.current.lexeme ≠ .mark .leftBracket ∧
      ∀ operator, operator? cursor.current.lexeme = some operator →
        precedence operator ≤ tier.rank) →
      Outcome all before
        (fun tokens tree => Derives (.operation (.ofFloor floor)) (front ++ tokens) [tree])
        (operationFrom fuel floor left cursor)
  primary : ∀ {before : List Token} {cursor : Cursor}, Stands all before cursor →
    8 * all.length + 2 < fuel + 8 * (before.length + 1) →
      Outcome all before (fun tokens tree => Derives .primary tokens [tree])
        (primary fuel cursor)
  items : ∀ {before : List Token} {cursor : Cursor} {closing : Mark} (what : String)
    (atFirst : Bool), closing = .rightParen ∨ closing = .rightBracket →
    Stands all before cursor → 8 * all.length + 5 < fuel + 8 * (before.length + 1) →
      Outcome all before (Itemized closing atFirst) (items fuel closing what atFirst cursor)
  sequence : ∀ {before : List Token} {cursor : Cursor} {closing : Lexeme}, Closes closing →
    Stands all before cursor → 8 * all.length + 5 < fuel + 8 * (before.length + 1) →
      Outcome all before (Sequenced closing) (Parser.sequence fuel closing cursor)
  block : ∀ {before : List Token} {cursor : Cursor}, Stands all before cursor →
    8 * all.length + 1 < fuel + 8 * (before.length + 1) →
      Outcome all before (fun tokens tree => Derives .block tokens [tree]) (block fuel cursor)
  conditional : ∀ {before : List Token} {cursor : Cursor},
    cursor.current.lexeme = .keyword .ifWord → Stands all before cursor →
    8 * all.length + 1 < fuel + 8 * (before.length + 1) →
      Outcome all before (fun tokens tree => Derives .conditional tokens [tree])
        (conditional fuel cursor)

section Levels

variable {all before : List Token} {fuel : Nat} {cursor : Cursor} (ended : Ended all)
  (level : Level all fuel) (stands : Stands all before cursor)

include ended level stands

theorem expression_outcome (enough : 8 * all.length + 4 < fuel + 1 + 8 * (before.length + 1)) :
    Outcome all before (fun tokens tree => Derives .expression tokens [tree])
      (expression (fuel + 1) cursor) := by
  by_cases starts : cursor.current.lexeme = .keyword .letWord
  · rw [expression, lexeme_bind]
    simp only [starts]
    rw [position_bind]
    refine outcome_advance stands ended (by simp [starts]) fun first standsFirst => ?_
    refine outcome_identifier standsFirst ended ?_ fun name second named standsSecond => ?_
    · refine ⟨[.identifier "x", .mark .assign, zero], by simp [vocabulary], fun more same => ?_⟩
      simp only [List.map_eq_cons_iff, List.map_eq_nil_iff] at same
      obtain ⟨_, _, rfl, named, _, _, rfl, assigned, _, _, rfl, digit, rfl⟩ := same
      exact ⟨_, .bind starts named assigned (derives_zero digit)⟩
    refine outcome_expect standsSecond ended ?_ (by simp) fun third assigned standsThird => ?_
    · refine ⟨[.mark .assign, zero], by simp [vocabulary], fun more same => ?_⟩
      simp only [List.map_eq_cons_iff, List.map_eq_nil_iff] at same
      obtain ⟨_, _, rfl, assigned, _, _, rfl, digit, rfl⟩ := same
      exact ⟨_, .bind starts named assigned (derives_zero digit)⟩
    refine outcome_map (level.expression standsThird ?_) fun tokens value derives =>
      .bind starts named assigned derives
    simp only [List.length_append, List.length_cons, List.length_nil]
    omega
  · rw [expression_other starts]
    exact (level.operation 0 (Nat.zero_le _) stands (by omega)).mono
      fun tokens tree derives => .binding derives

omit ended in
theorem operation_outcome {floor : Nat} (low : floor ≤ 5)
    (enough : 8 * all.length + 3 < fuel + 1 + 8 * (before.length + 1)) :
    Outcome all before (fun tokens tree => Derives (.operation (.ofFloor floor)) tokens [tree])
      (operation (fuel + 1) floor cursor) := by
  have weak : ∀ {tokens : List Token} {tree : Expr Position}, Derives .primary tokens [tree] →
      Derives (.operation (.ofFloor floor)) tokens [tree] := fun derives =>
    (Derives.operand derives).weaken (Tier.rank_ofFloor_le low)
  rw [operation]
  refine outcome_bind (level.primary stands (by omega)) [] (by simp) ?_ ?_
  · rintro tokens tree derives more same
    rw [List.map_eq_nil_iff.mp same, List.append_nil]
    exact ⟨tree, weak derives⟩
  · intro tokens tree later _ standsLater derives
    have length := standsLater.length
    refine level.operationFrom (show floor ≤ Tier.subscript.rank from low) standsLater ?_
      (.operand derives) (by simp)
    simp only [List.length_append] at length ⊢
    omega

/-- Behind an operand of the tightest tier an index is passed. -/
theorem index_outcome {floor : Nat} {front : List Token} {left : Expr Position} (low : floor ≤ 5)
    (enough : 8 * all.length + 1 < fuel + 1 + 8 * (before.length + 1))
    (derives : Derives (.operation .subscript) front [left])
    (bracket : cursor.current.lexeme = .mark .leftBracket) :
    Outcome all before
      (fun tokens tree => Derives (.operation (.ofFloor floor)) (front ++ tokens) [tree])
      (operationFrom (fuel + 1) floor left cursor) := by
  have weaker : (Tier.ofFloor floor).rank ≤ Tier.subscript.rank := Tier.rank_ofFloor_le low
  have close : ∀ inner index, Derives .expression inner [index] → ∀ closing : Token,
      closing.lexeme = .mark .rightBracket →
      Derives (.operation .subscript) (front ++ cursor.current :: (inner ++ [closing]))
        [.index cursor.current.position left index] := by
    intro inner index inside closing closes
    simpa using Derives.index derives bracket inside closes
  rw [operationFrom, position_bind, lexeme_bind]
  simp only [bracket]
  refine outcome_advance stands ended (by simp [bracket]) fun first standsFirst => ?_
  refine outcome_bind (level.expression standsFirst ?_) [.mark .rightBracket]
    (by simp [vocabulary]) ?_ ?_
  · simp only [List.length_append, List.length_cons, List.length_nil]
    omega
  · rintro inner index inside more same
    simp only [List.map_eq_cons_iff, List.map_eq_nil_iff] at same
    obtain ⟨closing, _, rfl, closes, rfl⟩ := same
    exact ⟨_, (close inner index inside closing closes).weaken weaker⟩
  · intro inner index second _ standsSecond inside
    have length := standsSecond.length
    refine outcome_expect standsSecond ended ?_ (by simp) fun third closes standsThird => ?_
    · refine ⟨[.mark .rightBracket], by simp [vocabulary], fun more same => ?_⟩
      simp only [List.map_eq_cons_iff, List.map_eq_nil_iff] at same
      obtain ⟨closing, _, rfl, closes, rfl⟩ := same
      exact ⟨_, (close inner index inside closing closes).weaken weaker⟩
    · refine (level.operationFrom (show floor ≤ Tier.subscript.rank from low) standsThird ?_
        (close inner index inside second.current closes) (by simp)).mono fun tokens tree whole => ?_
      · simp only [List.length_append, List.length_cons, List.length_nil] at length ⊢
        omega
      · simpa using whole

/-- Behind an operand an operator and another operand are passed. -/
theorem binary_outcome {floor : Nat} {tier : Tier} {front : List Token} {left : Expr Position}
    (enough : 8 * all.length + 1 < fuel + 1 + 8 * (before.length + 1)) {operator : Operator}
    (here : operator? cursor.current.lexeme = some operator)
    (tight : floor ≤ precedence operator) (bound : precedence operator ≤ tier.rank)
    (derives : Derives (.operation tier) front [left]) :
    Outcome all before
      (fun tokens tree => Derives (.operation (.ofFloor floor)) (front ++ tokens) [tree])
      (operationFrom (fuel + 1) floor left cursor) := by
  obtain ⟨mark, same, marked, spelled, listed, rank, next, inner⟩ := listed_of_operator? here
  have small : precedence operator + 1 ≤ 5 := by
    rw [← rank]
    cases same <;> first | exact absurd rfl inner | decide
  have join : ∀ tokens right, Derives (.operation same.tighter) tokens [right] →
      Derives (.operation same) (front ++ cursor.current :: tokens)
        [.binary cursor.current.position operator left right] := fun tokens right operand =>
    .binary listed marked spelled (derives.weaken (rank ▸ bound)) operand
  have lower : (Tier.ofFloor floor).rank ≤ same.rank := Tier.rank_ofFloor_le (rank ▸ tight)
  rw [operationFrom_operator here tight]
  refine outcome_advance stands ended (by simp [marked]) fun first standsFirst => ?_
  refine outcome_bind (level.operation _ small standsFirst ?_) [] (by simp) ?_ ?_
  · simp only [List.length_append, List.length_cons, List.length_nil]
    omega
  · rintro tokens right operand more same
    rw [next] at operand
    rw [List.map_eq_nil_iff.mp same, List.append_nil]
    exact ⟨_, (join tokens right operand).weaken lower⟩
  · intro tokens right later passed standsLater operand
    rw [next] at operand
    have length := standsLater.length
    obtain ⟨plain, looser⟩ := operation_stops passed
    refine (level.operationFrom (rank ▸ tight) standsLater ?_ (join tokens right operand)
      fun _ => ⟨plain, fun other again => ?_⟩).mono fun more tree whole => ?_
    · simp only [List.length_append, List.length_cons, List.length_nil] at length ⊢
      omega
    · rw [rank]
      exact Nat.le_of_lt_succ (looser other again)
    · simpa using whole

theorem operationFrom_outcome {floor : Nat} {tier : Tier} {front : List Token}
    {left : Expr Position} (low : floor ≤ tier.rank)
    (enough : 8 * all.length + 1 < fuel + 1 + 8 * (before.length + 1))
    (derives : Derives (.operation tier) front [left])
    (loose : tier ≠ .subscript → cursor.current.lexeme ≠ .mark .leftBracket ∧
      ∀ operator, operator? cursor.current.lexeme = some operator →
        precedence operator ≤ tier.rank) :
    Outcome all before
      (fun tokens tree => Derives (.operation (.ofFloor floor)) (front ++ tokens) [tree])
      (operationFrom (fuel + 1) floor left cursor) := by
  by_cases bracket : cursor.current.lexeme = .mark .leftBracket
  · obtain rfl : tier = .subscript := by
      by_contra other
      exact (loose other).1 bracket
    exact index_outcome ended level stands low enough derives bracket
  · by_cases stops : ∀ operator, operator? cursor.current.lexeme = some operator →
      precedence operator < floor
    · rw [operationFrom_ends bracket stops]
      exact ⟨[], by rwa [List.append_nil],
        by simpa using derives.weaken (Tier.rank_ofFloor_le low)⟩
    · simp only [not_forall, not_lt] at stops
      obtain ⟨operator, here, tight⟩ := stops
      refine binary_outcome ended level stands enough here tight ?_ derives
      by_cases top : tier = .subscript
      · obtain ⟨_, same, _, _, _, rank, _, _⟩ := listed_of_operator? here
        rw [← rank, top]
        cases same <;> decide
      · exact (loose top).2 operator here

omit ended in
/-- One more item is passed, and then the others. -/
theorem itemsFrom_outcome {closing : Mark} {what : String} {atFirst : Bool}
    (closes : closing = .rightParen ∨ closing = .rightBracket) (front : List Token)
    (enough : 8 * all.length + 4 < fuel + 8 * (before.length + 1))
    (put : ∀ tokens tree others trees, Derives .expression tokens [tree] →
      Derives .others others trees →
        Derives (if atFirst then .arguments else .others) (front ++ tokens ++ others)
          (tree :: trees)) :
    Outcome all before (fun tokens => Itemized closing atFirst (front ++ tokens))
      (itemsFrom fuel closing what cursor) := by
  rw [itemsFrom]
  refine outcome_bind (level.expression stands enough) [.mark closing] ?_ ?_ ?_
  · rcases closes with rfl | rfl <;> simp [vocabulary]
  · rintro tokens tree derives more same
    simp only [List.map_eq_cons_iff, List.map_eq_nil_iff] at same
    obtain ⟨close, _, rfl, is, rfl⟩ := same
    exact ⟨[tree], front ++ tokens, close, by simp, is, by simpa using put _ _ _ _ derives .done⟩
  · intro tokens tree later _ standsLater derives
    have length := standsLater.length
    have present := List.length_pos_iff.mpr derives.ne_nil
    refine outcome_map (level.items what false closes standsLater ?_) ?_
    · simp only [List.length_append] at length ⊢
      omega
    · rintro others trees ⟨inner, close, rfl, is, derivesOthers⟩
      exact ⟨front ++ tokens ++ inner, close, by simp, is, put _ _ _ _ derives derivesOthers⟩

theorem items_outcome {closing : Mark} {what : String} {atFirst : Bool}
    (closes : closing = .rightParen ∨ closing = .rightBracket)
    (enough : 8 * all.length + 5 < fuel + 1 + 8 * (before.length + 1)) :
    Outcome all before (Itemized closing atFirst)
      (items (fuel + 1) closing what atFirst cursor) := by
  by_cases here : cursor.current.lexeme = .mark closing
  · rw [items_closing here]
    refine outcome_advance stands ended (by simp [here]) fun later standsLater => ?_
    refine outcome_pure standsLater ⟨[], cursor.current, rfl, here, ?_⟩
    cases atFirst
    · exact .done
    · exact .empty
  · cases atFirst with
    | true =>
        rw [items_first here]
        exact itemsFrom_outcome level stands closes [] (by omega)
          fun tokens tree others trees derives derivesOthers => .first derives derivesOthers
    | false =>
        rw [items_next here]
        refine outcome_expect stands ended ?_ (by simp) fun later comma standsLater => ?_
        · refine ⟨[.mark closing], ?_, fun more same => ?_⟩
          · rcases closes with rfl | rfl <;> simp [vocabulary]
          · simp only [List.map_eq_cons_iff, List.map_eq_nil_iff] at same
            obtain ⟨close, _, rfl, is, rfl⟩ := same
            exact ⟨[], [], close, rfl, is, .done⟩
        · refine itemsFrom_outcome level standsLater closes [cursor.current] ?_
            fun tokens tree others trees derives derivesOthers =>
              .other comma derives derivesOthers
          simp only [List.length_append, List.length_cons, List.length_nil]
          omega

def closingWords (closing : Lexeme) : List Lexeme :=
  if closing = .endOfInput then [] else [closing]

omit ended level stands in
theorem sequenced_of_words {closing : Lexeme} {inner more : List Token} {tree : Expr Position}
    (derives : Derives .sequence inner [tree])
    (same : more.map Token.lexeme = closingWords closing) :
    Sequenced closing (inner ++ more) tree := by
  refine ⟨inner, more, rfl, derives, ?_⟩
  rw [closingWords] at same
  split at same
  · exact .inl ⟨‹_›, List.map_eq_nil_iff.mp same⟩
  · simp only [List.map_eq_cons_iff, List.map_eq_nil_iff] at same
    obtain ⟨close, _, rfl, is, rfl⟩ := same
    exact .inr ⟨‹_›, close, rfl, is⟩

omit ended level stands in
theorem closingWords_known {closing : Lexeme} (closes : Closes closing) :
    ∀ word ∈ closingWords closing, word ∈ vocabulary := by
  rcases closes with rfl | rfl <;> simp [closingWords, vocabulary]

omit level in
theorem closed_outcome {closing : Lexeme} (closes : Closes closing) {front : List Token}
    {tree : Expr Position} (derives : Derives .sequence front [tree]) :
    Outcome all before (fun tokens => Sequenced closing (front ++ tokens))
      (closed closing tree cursor) := by
  by_cases here : cursor.current.lexeme = closing
  · rw [closed_ok here]
    by_cases last : closing = .endOfInput
    · rw [if_pos last]
      exact outcome_pure stands (sequenced_of_words derives (by simp [closingWords, last]))
    · rw [if_neg last]
      refine ⟨[cursor.current], stands.advance ended (here ▸ last), ?_⟩
      exact sequenced_of_words derives (by simp [closingWords, last, here])
  · rw [closed_other here]
    exact outcome_failExpecting stands ended ⟨closingWords closing, closingWords_known closes,
      fun more same => ⟨tree, sequenced_of_words derives same⟩⟩

theorem sequence_outcome {closing : Lexeme} (closes : Closes closing)
    (enough : 8 * all.length + 5 < fuel + 1 + 8 * (before.length + 1)) :
    Outcome all before (Sequenced closing) (Parser.sequence (fuel + 1) closing cursor) := by
  rw [sequence_succ]
  refine outcome_bind (level.expression stands (by omega)) (closingWords closing)
    (closingWords_known closes) ?_ ?_
  · intro tokens tree derives more same
    exact ⟨tree, sequenced_of_words (.last derives) same⟩
  · intro tokens tree later _ standsLater derives
    have length := standsLater.length
    by_cases semicolon : later.current.lexeme = .mark .semicolon
    · have standsNext := standsLater.advance ended (by simp [semicolon])
      have lengthNext := standsNext.length
      simp only [List.length_append, List.length_cons, List.length_nil] at length lengthNext
      refine @Outcome.append _ all (before ++ tokens) _ [later.current] _ ?_
      by_cases finished : later.advance.current.lexeme = closing
      · rw [following_ended semicolon finished]
        exact (closed_outcome ended standsNext closes (.ended derives semicolon)).mono
          fun more result whole => by simpa using whole
      · rw [following_more semicolon finished]
        refine outcome_map (level.sequence closes standsNext ?_) ?_
        · simp only [List.length_append, List.length_cons, List.length_nil]
          omega
        · rintro others next ⟨inner, tail, rfl, behind, closed⟩
          exact ⟨tokens ++ later.current :: inner, tail, by simp, .more derives semicolon behind,
            closed⟩
    · rw [following_other semicolon]
      exact closed_outcome ended standsLater closes (.last derives)

theorem block_outcome (enough : 8 * all.length + 1 < fuel + 1 + 8 * (before.length + 1)) :
    Outcome all before (fun tokens tree => Derives .block tokens [tree])
      (block (fuel + 1) cursor) := by
  rw [block]
  refine outcome_expect stands ended ?_ (by simp) fun later opens standsLater => ?_
  · exact ⟨defaultBlock, by decide, fun more same => derives_defaultBlock same⟩
  · rw [lexeme_bind]
    by_cases empty : later.current.lexeme = .mark .rightBrace
    · simp only [empty, beq_self_eq_true, if_true]
      intro atEnd
      rw [show _ = false from standsLater.blame_emptyBlock] at atEnd
      cases atEnd
    · rw [if_neg (by simpa using empty)]
      refine (level.sequence (.inl rfl) standsLater ?_).mono ?_
      · simp only [List.length_append, List.length_cons, List.length_nil]
        omega
      · rintro tokens tree ⟨inner, tail, rfl, inside, ⟨absurd, _⟩ | ⟨_, close, rfl, closes⟩⟩
        · cases absurd
        · exact .block opens inside closes

omit ended in
theorem branch_outcome (enough : 8 * all.length + 1 < fuel + 8 * (before.length + 1)) :
    Outcome all before
      (fun tokens tree => Derives .block tokens [tree] ∨ Derives .conditional tokens [tree])
      (branch fuel cursor) := by
  rw [branch_apply]
  split
  · exact (level.conditional ‹_› stands enough).mono fun _ _ => .inr
  · exact (level.block stands enough).mono fun _ _ => .inl

/-- Behind the first block of a conditional the other branch is passed. -/
theorem otherwise_outcome (front : List Token) (build : Expr Position → Expr Position)
    (enough : 8 * all.length + 1 < fuel + 8 * (before.length + 2))
    (put : ∀ between right onFalse, between.lexeme = .keyword .elseWord →
      Derives .block right [onFalse] ∨ Derives .conditional right [onFalse] →
        Derives .conditional (front ++ between :: right) [build onFalse]) :
    Outcome all before (fun tokens tree => Derives .conditional (front ++ tokens) [tree])
      (otherwise fuel build cursor) := by
  by_cases word : cursor.current.lexeme = .keyword .elseWord
  · rw [otherwise_else word]
    refine @Outcome.append _ all before _ [cursor.current] _ ?_
    refine outcome_map (branch_outcome level (stands.advance ended (by simp [word])) ?_)
      fun right onFalse other => put _ _ _ word other
    simp only [List.length_append, List.length_cons, List.length_nil]
    omega
  · rw [otherwise_other word]
    refine outcome_failExpecting stands ended ⟨defaultElse, by decide, fun more same => ?_⟩
    obtain ⟨between, right, onFalse, rfl, isElse, other⟩ := derives_defaultElse same
    exact ⟨_, put _ _ _ isElse (.inl other)⟩

theorem conditional_outcome (starts : cursor.current.lexeme = .keyword .ifWord)
    (enough : 8 * all.length + 1 < fuel + 1 + 8 * (before.length + 1)) :
    Outcome all before (fun tokens tree => Derives .conditional tokens [tree])
      (conditional (fuel + 1) cursor) := by
  have put : ∀ inner condition left onTrue between right onFalse,
      Derives .expression inner [condition] → Derives .block left [onTrue] →
      between.lexeme = .keyword .elseWord →
      Derives .block right [onFalse] ∨ Derives .conditional right [onFalse] →
      Derives .conditional (cursor.current :: (inner ++ (left ++ between :: right)))
        [.conditional cursor.current.position condition onTrue onFalse] := by
    rintro inner condition left onTrue between right onFalse test first word (other | other)
    · simpa using Derives.branches starts test first word other
    · simpa using Derives.chain starts test first word other
  rw [conditional_succ]
  refine outcome_advance stands ended (by simp [starts]) fun first standsFirst => ?_
  refine outcome_bind (level.expression standsFirst ?_) (defaultBlock ++ defaultElse)
    (by decide) ?_ ?_
  · simp only [List.length_append, List.length_cons, List.length_nil]
    omega
  · rintro inner condition test more same
    obtain ⟨left, others, rfl, one, other⟩ := List.map_eq_append_iff.mp same
    obtain ⟨onTrue, block⟩ := derives_defaultBlock one
    obtain ⟨between, right, onFalse, rfl, word, behind⟩ := derives_defaultElse other
    exact ⟨_, put _ _ _ _ _ _ _ test block word (.inl behind)⟩
  intro inner condition second _ standsSecond test
  refine outcome_bind (level.block standsSecond ?_) defaultElse (by decide) ?_ ?_
  · simp only [List.length_append, List.length_cons, List.length_nil]
    omega
  · rintro left onTrue block more same
    obtain ⟨between, right, onFalse, rfl, word, behind⟩ := derives_defaultElse same
    exact ⟨_, put _ _ _ _ _ _ _ test block word (.inl behind)⟩
  intro left onTrue third _ standsThird block
  refine (otherwise_outcome ended level standsThird (cursor.current :: (inner ++ left)) _ ?_
    ?_).mono fun tokens tree whole => by simpa using whole
  · simp only [List.length_append, List.length_cons, List.length_nil]
    omega
  · intro between right onFalse word other
    simpa using put _ _ _ _ _ _ _ test block word other

/-- An expression and the parenthesis behind it are passed. -/
theorem enclosed_outcome (front : List Token) (build : Expr Position → Expr Position)
    (enough : 8 * all.length + 4 < fuel + 8 * (before.length + 1))
    (put : ∀ inner tree closing, Derives .expression inner [tree] →
      closing.lexeme = .mark .rightParen →
        Derives .primary (front ++ (inner ++ [closing])) [build tree]) :
    Outcome all before (fun tokens tree => Derives .primary (front ++ tokens) [tree])
      ((do
        let inner ← expression fuel
        expect (.mark .rightParen) "')'"
        return build inner) cursor) := by
  refine outcome_bind (level.expression stands enough) [.mark .rightParen] (by decide) ?_ ?_
  · rintro inner tree inside more same
    simp only [List.map_eq_cons_iff, List.map_eq_nil_iff] at same
    obtain ⟨closing, _, rfl, closes, rfl⟩ := same
    exact ⟨_, put _ _ _ inside closes⟩
  · intro inner tree later _ standsLater inside
    refine outcome_expect standsLater ended ?_ (by simp) fun last closes standsLast => ?_
    · refine ⟨[.mark .rightParen], by decide, fun more same => ?_⟩
      simp only [List.map_eq_cons_iff, List.map_eq_nil_iff] at same
      obtain ⟨closing, _, rfl, closes, rfl⟩ := same
      exact ⟨_, put _ _ _ inside closes⟩
    · exact outcome_pure standsLast (put _ _ _ inside closes)

/-- A loop is passed. -/
theorem each_outcome (starts : cursor.current.lexeme = .keyword .each)
    (enough : 8 * all.length + 2 < fuel + 1 + 8 * (before.length + 1)) :
    Outcome all before (fun tokens tree => Derives .primary tokens [tree])
      ((do
        advance
        let name ← identifier "loop variable"
        expect (.keyword .inWord) "'in'"
        let bound ← expression fuel
        let body ← block fuel
        return Expr.each cursor.current.position name bound body) cursor) := by
  have defaults : ∀ {name between : Token} {text : String} {more : List Token},
      name.lexeme = .identifier text → between.lexeme = .keyword .inWord →
      more.map Token.lexeme = zero :: defaultBlock →
      ∃ tree, Derives .primary (cursor.current :: name :: between :: more) [tree] := by
    intro name between text more named word same
    obtain ⟨digit, rest, rfl, digits, same⟩ := List.map_eq_cons_iff.mp same
    obtain ⟨body, block⟩ := derives_defaultBlock same
    exact ⟨_, .each starts named word (derives_zero digits) block⟩
  refine outcome_advance stands ended (by simp [starts]) fun first standsFirst => ?_
  refine outcome_identifier standsFirst ended ?_ fun name second named standsSecond => ?_
  · refine ⟨.identifier "x" :: .keyword .inWord :: zero :: defaultBlock, by decide,
      fun more same => ?_⟩
    obtain ⟨name, rest, rfl, named, same⟩ := List.map_eq_cons_iff.mp same
    obtain ⟨between, rest, rfl, word, same⟩ := List.map_eq_cons_iff.mp same
    exact defaults named word same
  refine outcome_expect standsSecond ended ?_ (by simp) fun third word standsThird => ?_
  · refine ⟨.keyword .inWord :: zero :: defaultBlock, by decide, fun more same => ?_⟩
    obtain ⟨between, rest, rfl, word, same⟩ := List.map_eq_cons_iff.mp same
    exact defaults named word same
  refine outcome_bind (level.expression standsThird ?_) defaultBlock (by decide) ?_ ?_
  · simp only [List.length_append, List.length_cons, List.length_nil]
    omega
  · intro inner bound limit more same
    obtain ⟨body, block⟩ := derives_defaultBlock same
    exact ⟨_, .each starts named word limit block⟩
  · intro inner bound fourth _ standsFourth limit
    refine outcome_map (level.block standsFourth ?_) fun rest body block =>
      .each starts named word limit block
    simp only [List.length_append, List.length_cons, List.length_nil]
    omega

theorem name_outcome {name : String} (named : cursor.current.lexeme = .identifier name)
    (enough : 8 * all.length + 2 < fuel + 1 + 8 * (before.length + 1)) :
    Outcome all before (fun tokens tree => Derives .primary tokens [tree])
      (primary (fuel + 1) cursor) := by
  rw [primary, position_bind, lexeme_bind]
  simp only [named]
  refine outcome_advance stands ended (by simp [named]) fun later standsLater => ?_
  rw [lexeme_bind]
  by_cases opens : later.current.lexeme = .mark .leftParen
  · simp only [opens]
    refine outcome_advance standsLater ended (by simp [opens]) fun last standsLast => ?_
    refine outcome_map (level.items _ true (.inl rfl) standsLast ?_) ?_
    · simp only [List.length_append, List.length_cons, List.length_nil]
      omega
    · rintro tokens trees ⟨inner, close, rfl, closes, inside⟩
      exact .call named opens inside closes
  · generalize later.current.lexeme = found at opens ⊢
    split
    · exact absurd rfl opens
    · exact outcome_pure standsLater (.ident named)

theorem primary_outcome (enough : 8 * all.length + 2 < fuel + 1 + 8 * (before.length + 1)) :
    Outcome all before (fun tokens tree => Derives .primary tokens [tree])
      (primary (fuel + 1) cursor) := by
  have unexpected : Outcome all before (fun tokens tree => Derives .primary tokens [tree])
      ((failUnexpected : Parser (Expr Position)) cursor) := by
    refine outcome_failUnexpected stands ended ⟨[zero], by decide, fun more same => ?_⟩
    simp only [List.map_eq_cons_iff, List.map_eq_nil_iff] at same
    obtain ⟨digit, _, rfl, digits, rfl⟩ := same
    exact ⟨_, .integer digits⟩
  rw [primary, position_bind, lexeme_bind]
  cases here : cursor.current.lexeme with
  | integer numeral value =>
      refine outcome_advance stands ended (by simp [here]) fun later standsLater => ?_
      refine outcome_pure standsLater ?_
      rw [← here]
      exact .integer here
  | identifier name =>
      have passes := name_outcome ended level stands here enough
      rwa [primary, position_bind, lexeme_bind, here] at passes
  | keyword word =>
      cases word with
      | trueWord =>
          refine outcome_advance stands ended (by simp [here]) fun later standsLater => ?_
          exact outcome_pure standsLater (.truth here)
      | falseWord =>
          refine outcome_advance stands ended (by simp [here]) fun later standsLater => ?_
          exact outcome_pure standsLater (.falsehood here)
      | len =>
          refine outcome_advance stands ended (by simp [here]) fun first standsFirst => ?_
          refine outcome_expect standsFirst ended ?_ (by simp) fun second opens standsSecond => ?_
          · refine ⟨[.mark .leftParen, zero, .mark .rightParen], by decide, fun more same => ?_⟩
            simp only [List.map_eq_cons_iff, List.map_eq_nil_iff] at same
            obtain ⟨_, _, rfl, opens, _, _, rfl, digits, _, _, rfl, closes, rfl⟩ := same
            exact ⟨_, .length here opens (derives_zero digits) closes⟩
          · refine enclosed_outcome ended level standsSecond [_, _] _ ?_
              fun inner tree closing inside closes => .length here opens inside closes
            simp only [List.length_append, List.length_cons, List.length_nil]
            omega
      | ifWord =>
          exact (level.conditional here stands (by omega)).mono fun _ _ => .choice
      | each => exact each_outcome ended level stands here enough
      | fn | letWord | elseWord | inWord => exact unexpected
  | mark sign =>
      cases sign with
      | leftBracket =>
          refine outcome_advance stands ended (by simp [here]) fun first standsFirst => ?_
          refine outcome_map (level.items _ true (.inr rfl) standsFirst ?_) ?_
          · simp only [List.length_append, List.length_cons, List.length_nil]
            omega
          · rintro tokens trees ⟨inner, close, rfl, closes, inside⟩
            exact .array here inside closes
      | leftParen =>
          refine outcome_advance stands ended (by simp [here]) fun first standsFirst => ?_
          refine enclosed_outcome ended level standsFirst [_] id ?_
            fun inner tree closing inside closes => .paren here inside closes
          simp only [List.length_append, List.length_cons, List.length_nil]
          omega
      | leftBrace => exact (level.block stands (by omega)).mono fun _ _ => .braces
      | _ => exact unexpected
  | illegal byte => exact unexpected
  | endOfInput => exact unexpected

end Levels

theorem levels {all : List Token} (ended : Ended all) (fuel : Nat) : Level all fuel := by
  induction fuel with
  | zero =>
      have short : ∀ {before : List Token} {cursor : Cursor} {rank : Nat},
          Stands all before cursor → ¬8 * all.length + rank < 0 + 8 * (before.length + 1) := by
        intro before cursor rank stands enough
        have length := stands.length
        omega
      refine ⟨?_, ?_, ?_, ?_, ?_, ?_, ?_, ?_⟩
      · exact fun stands enough => (short stands enough).elim
      · exact fun floor _ stands enough => (short stands enough).elim
      · exact fun _ stands enough => (short stands enough).elim
      · exact fun stands enough => (short stands enough).elim
      · exact fun what atFirst _ stands enough => (short stands enough).elim
      · exact fun _ stands enough => (short stands enough).elim
      · exact fun stands enough => (short stands enough).elim
      · exact fun _ stands enough => (short stands enough).elim
  | succ fuel level =>
      exact ⟨expression_outcome ended level,
        fun floor low stands => operation_outcome level stands low,
        fun low stands => operationFrom_outcome ended level stands low,
        primary_outcome ended level,
        fun what atFirst closes stands => items_outcome ended level stands closes,
        fun closes stands => sequence_outcome ended level stands closes,
        block_outcome ended level,
        fun starts stands => conditional_outcome ended level stands starts⟩

end Grammar

end ExprLang
