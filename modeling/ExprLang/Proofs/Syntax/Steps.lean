import ExprLang.Syntax.Parser
import Mathlib

/-!
# Steps of the parser

What the parser does with the token under the cursor, one step at a time.
-/

namespace ExprLang

namespace Parser

variable {cursor later : Cursor}

theorem bind_apply (first : Parser α) (second : α → Parser β) (cursor : Cursor) :
    (first >>= second) cursor = first cursor >>= fun answer => second answer.1 answer.2 :=
  rfl

theorem bind_ok {first : Parser α} {result : α} (ended : first cursor = .ok (result, later))
    (second : α → Parser β) : (first >>= second) cursor = second result later := by
  rw [bind_apply, ended]
  rfl

theorem bind_error {first : Parser α} {errors : SyntaxErrors}
    (ended : first cursor = .error errors) (second : α → Parser β) :
    (first >>= second) cursor = .error errors := by
  rw [bind_apply, ended]
  rfl

theorem bind_eq_ok {first : Parser α} {second : α → Parser β} {answer : β × Cursor} :
    (first >>= second) cursor = .ok answer ↔
      ∃ result later, first cursor = .ok (result, later) ∧ second result later = .ok answer := by
  cases ended : first cursor with
  | error errors => simp [bind_error ended]
  | ok middle =>
      obtain ⟨result, later⟩ := middle
      simp [bind_ok ended]

@[simp] theorem lexeme_bind (second : Lexeme → Parser β) :
    (lexeme >>= second) cursor = second cursor.current.lexeme cursor :=
  rfl

@[simp] theorem position_bind (second : Position → Parser β) :
    (position >>= second) cursor = second cursor.current.position cursor :=
  rfl

@[simp] theorem advance_bind (second : Unit → Parser β) :
    (advance >>= second) cursor = second () cursor.advance :=
  rfl

@[simp] theorem pure_apply (result : α) :
    (pure result : Parser α) cursor = .ok (result, cursor) :=
  rfl

@[simp] theorem failExpecting_apply (what : String) :
    (failExpecting what : Parser α) cursor =
      .error (cursor.blame (.expected what cursor.current.lexeme)) :=
  rfl

@[simp] theorem failUnexpected_apply :
    (failUnexpected : Parser α) cursor =
      .error (cursor.blame (.unexpected cursor.current.lexeme)) :=
  rfl

theorem expect_ok {wanted : Lexeme} (what : String) (clean : cursor.errors = [])
    (here : cursor.current.lexeme = wanted) :
    expect wanted what cursor = .ok ((), cursor.advance) := by
  change (if _ then advance else failExpecting what : Parser Unit) cursor = _
  rw [clean, here, if_pos (by simp)]
  rfl

theorem expect_error {wanted : Lexeme} (what : String)
    (other : cursor.errors ≠ [] ∨ cursor.current.lexeme ≠ wanted) :
    expect wanted what cursor =
      .error (cursor.blame (.expected what cursor.current.lexeme)) := by
  change (if _ then advance else failExpecting what : Parser Unit) cursor = _
  rw [if_neg]
  · rfl
  · rcases other with unclean | different
    · simp [unclean]
    · simp [different]

theorem identifier_ok {name : String} (what : String) (clean : cursor.errors = [])
    (here : cursor.current.lexeme = .identifier name) :
    identifier what cursor = .ok (name, cursor.advance) := by
  obtain ⟨⟨position, found⟩, ahead, errors⟩ := cursor
  cases clean
  cases here
  rfl

theorem identifier_error (what : String)
    (other : cursor.errors ≠ [] ∨ ∀ name, cursor.current.lexeme ≠ .identifier name) :
    identifier what cursor =
      .error (cursor.blame (.expected what cursor.current.lexeme)) := by
  obtain ⟨current, ahead, errors⟩ := cursor
  obtain ⟨position, here⟩ := current
  cases errors with
  | cons error errors => rfl
  | nil =>
      cases here with
      | identifier name => simp at other
      | _ => rfl

/-! ## Operands -/

section Operands

variable {fuel : Nat}

theorem expression_let (here : cursor.current.lexeme = .keyword .letWord) :
    expression (fuel + 1) cursor =
      (do
        let start ← position
        advance
        let name ← identifier "variable name"
        expect (.mark .assign) "'='"
        let value ← expression fuel
        return Expr.bind start name value) cursor := by
  obtain ⟨⟨position, found⟩, ahead, errors⟩ := cursor
  cases here
  rfl

theorem expression_other (other : cursor.current.lexeme ≠ .keyword .letWord) :
    expression (fuel + 1) cursor = operation fuel 0 cursor := by
  obtain ⟨⟨position, found⟩, ahead, errors⟩ := cursor
  cases found with
  | keyword word =>
      cases word with
      | letWord => exact absurd rfl other
      | _ => rfl
  | _ => rfl

theorem operation_succ (fuel floor : Nat) :
    operation (fuel + 1) floor = primary fuel >>= operationFrom fuel floor :=
  rfl

theorem operationFrom_index {floor : Nat} {left : Expr Position}
    (here : cursor.current.lexeme = .mark .leftBracket) :
    operationFrom (fuel + 1) floor left cursor =
      (do
        let start ← position
        advance
        let index ← expression fuel
        expect (.mark .rightBracket) "']'"
        operationFrom fuel floor (.index start left index)) cursor := by
  obtain ⟨⟨position, found⟩, ahead, errors⟩ := cursor
  cases here
  rfl

theorem primary_integer {numeral : String} {value : Option Int64}
    (here : cursor.current.lexeme = .integer numeral value) :
    primary (fuel + 1) cursor =
      .ok (.integer cursor.current.position cursor.current.lexeme.value, cursor.advance) := by
  obtain ⟨⟨position, found⟩, ahead, errors⟩ := cursor
  cases here
  rfl

theorem primary_truth (here : cursor.current.lexeme = .keyword .trueWord) :
    primary (fuel + 1) cursor =
      .ok (.boolean cursor.current.position true, cursor.advance) := by
  obtain ⟨⟨position, found⟩, ahead, errors⟩ := cursor
  cases here
  rfl

theorem primary_falsehood (here : cursor.current.lexeme = .keyword .falseWord) :
    primary (fuel + 1) cursor =
      .ok (.boolean cursor.current.position false, cursor.advance) := by
  obtain ⟨⟨position, found⟩, ahead, errors⟩ := cursor
  cases here
  rfl

def afterName (fuel : Nat) (start : Position) (name : String) : Parser (Expr Position) := do
  if (← lexeme) = .mark .leftParen then
    advance
    return .call start name (← items fuel .rightParen "',' or ')'" true)
  else return .ident start name

theorem afterName_paren (here : cursor.current.lexeme = .mark .leftParen) (fuel : Nat)
    (start : Position) (name : String) :
    afterName fuel start name cursor =
      (do
        let arguments ← items fuel .rightParen "',' or ')'" true
        return Expr.call start name arguments) cursor.advance := by
  rw [afterName, lexeme_bind, if_pos here]
  rfl

theorem afterName_other (other : cursor.current.lexeme ≠ .mark .leftParen) (fuel : Nat)
    (start : Position) (name : String) :
    afterName fuel start name cursor = .ok (.ident start name, cursor) := by
  rw [afterName, lexeme_bind, if_neg other]
  rfl

theorem primary_name {name : String} (here : cursor.current.lexeme = .identifier name) :
    primary (fuel + 1) cursor =
      afterName fuel cursor.current.position name cursor.advance := by
  rw [primary, position_bind, lexeme_bind, here]
  simp only [advance_bind, lexeme_bind]
  by_cases paren : cursor.advance.current.lexeme = .mark .leftParen
  · rw [afterName_paren paren, paren]
    rfl
  · rw [afterName_other paren]
    generalize cursor.advance.current.lexeme = behind at paren
    split
    · exact absurd rfl paren
    · rfl

theorem primary_bracket (here : cursor.current.lexeme = .mark .leftBracket) :
    primary (fuel + 1) cursor =
      (do
        let elements ← items fuel .rightBracket "',' or ']'" true
        return Expr.array cursor.current.position elements) cursor.advance := by
  obtain ⟨⟨position, found⟩, ahead, errors⟩ := cursor
  cases here
  rfl

theorem primary_length (here : cursor.current.lexeme = .keyword .len) :
    primary (fuel + 1) cursor =
      (do
        expect (.mark .leftParen) "'('"
        let target ← expression fuel
        expect (.mark .rightParen) "')'"
        return Expr.length cursor.current.position target) cursor.advance := by
  obtain ⟨⟨position, found⟩, ahead, errors⟩ := cursor
  cases here
  rfl

theorem primary_paren (here : cursor.current.lexeme = .mark .leftParen) :
    primary (fuel + 1) cursor =
      (do
        let inner ← expression fuel
        expect (.mark .rightParen) "')'"
        return inner) cursor.advance := by
  obtain ⟨⟨position, found⟩, ahead, errors⟩ := cursor
  cases here
  rfl

theorem primary_brace (here : cursor.current.lexeme = .mark .leftBrace) :
    primary (fuel + 1) cursor = block fuel cursor := by
  obtain ⟨⟨position, found⟩, ahead, errors⟩ := cursor
  cases here
  rfl

theorem primary_if (here : cursor.current.lexeme = .keyword .ifWord) :
    primary (fuel + 1) cursor = conditional fuel cursor := by
  obtain ⟨⟨position, found⟩, ahead, errors⟩ := cursor
  cases here
  rfl

theorem primary_each (here : cursor.current.lexeme = .keyword .each) :
    primary (fuel + 1) cursor =
      (do
        let name ← identifier "loop variable"
        expect (.keyword .inWord) "'in'"
        let bound ← expression fuel
        let body ← block fuel
        return Expr.each cursor.current.position name bound body) cursor.advance := by
  obtain ⟨⟨position, found⟩, ahead, errors⟩ := cursor
  cases here
  rfl

end Operands

/-! ## Lists -/

section Lists

variable {fuel : Nat} {closing : Mark} {what : String} {atFirst : Bool}

theorem items_closing (here : cursor.current.lexeme = .mark closing) :
    items (fuel + 1) closing what atFirst cursor =
      (do
        advance
        return []) cursor := by
  rw [items, lexeme_bind, if_pos (by simpa using here)]

def itemsFrom (fuel : Nat) (closing : Mark) (what : String) : Parser (List (Expr Position)) := do
  let item ← expression fuel
  let others ← items fuel closing what false
  return item :: others

theorem items_first (other : cursor.current.lexeme ≠ .mark closing) :
    items (fuel + 1) closing what true cursor = itemsFrom fuel closing what cursor := by
  rw [items, lexeme_bind, if_neg (by simpa using other)]
  rfl

theorem items_next (other : cursor.current.lexeme ≠ .mark closing) :
    items (fuel + 1) closing what false cursor =
      (do
        expect (.mark .comma) what
        itemsFrom fuel closing what) cursor := by
  rw [items, lexeme_bind, if_neg (by simpa using other)]
  rfl

theorem parameters_closing (here : cursor.current.lexeme = .mark .rightParen) :
    parameters (fuel + 1) atFirst cursor =
      (do
        advance
        return []) cursor := by
  rw [parameters, lexeme_bind, if_pos (by simpa using here)]

def parametersFrom (fuel : Nat) : Parser (List Parameter) := do
  let start ← position
  let name ← identifier "parameter name"
  expect (.mark .colon) "':'"
  let found ← type fuel
  let others ← parameters fuel false
  return ⟨name, found, start⟩ :: others

theorem parameters_first (other : cursor.current.lexeme ≠ .mark .rightParen) :
    parameters (fuel + 1) true cursor = parametersFrom fuel cursor := by
  rw [parameters, lexeme_bind, if_neg (by simpa using other)]
  rfl

theorem parameters_next (other : cursor.current.lexeme ≠ .mark .rightParen) :
    parameters (fuel + 1) false cursor =
      (do
        expect (.mark .comma) "',' or ')'"
        parametersFrom fuel) cursor := by
  rw [parameters, lexeme_bind, if_neg (by simpa using other)]
  rfl

end Lists

/-! ## Sequences -/

def closed (closing : Lexeme) (tree : Expr Position) : Parser (Expr Position) := do
  if (← lexeme) == closing then
    if closing != .endOfInput then advance
    return tree
  else failExpecting (closingName closing)

def following (fuel : Nat) (closing : Lexeme) (first : Expr Position) :
    Parser (Expr Position) := do
  let more ← continues closing
  if more then
    let second ← Parser.sequence fuel closing
    return .sequence first.note first second
  else closed closing first

theorem sequence_succ (fuel : Nat) (closing : Lexeme) :
    Parser.sequence (fuel + 1) closing = expression fuel >>= following fuel closing := by
  rw [Parser.sequence]
  rfl

section Following

variable {fuel : Nat} {closing : Lexeme} {first : Expr Position}

theorem following_other (other : cursor.current.lexeme ≠ .mark .semicolon) :
    following fuel closing first cursor = closed closing first cursor := by
  have stops : continues closing cursor = .ok (false, cursor) := by
    rw [continues, lexeme_bind, if_neg (by simpa using other)]
    rfl
  rw [following, bind_ok stops]
  rfl

theorem continues_semicolon (here : cursor.current.lexeme = .mark .semicolon) :
    continues closing cursor =
      .ok (cursor.advance.current.lexeme != closing, cursor.advance) := by
  rw [continues, lexeme_bind, if_pos (by simpa using here)]
  rfl

theorem following_ended (here : cursor.current.lexeme = .mark .semicolon)
    (behind : cursor.advance.current.lexeme = closing) :
    following fuel closing first cursor = closed closing first cursor.advance := by
  rw [following, bind_ok (continues_semicolon here), behind, if_neg (by simp)]

theorem following_more (here : cursor.current.lexeme = .mark .semicolon)
    (behind : cursor.advance.current.lexeme ≠ closing) :
    following fuel closing first cursor =
      (do
        let second ← Parser.sequence fuel closing
        return Expr.sequence first.note first second) cursor.advance := by
  rw [following, bind_ok (continues_semicolon here), if_pos (by simpa using behind)]

end Following

theorem closed_ok {closing : Lexeme} (here : cursor.current.lexeme = closing)
    (tree : Expr Position) : closed closing tree cursor =
      .ok (tree, if closing = .endOfInput then cursor else cursor.advance) := by
  rw [closed, lexeme_bind, if_pos (by simpa using here)]
  by_cases last : closing = .endOfInput
  · subst last
    rfl
  · rw [if_pos (by simpa using last), if_neg last]
    rfl

theorem closed_other {closing : Lexeme} (other : cursor.current.lexeme ≠ closing)
    (tree : Expr Position) :
    closed closing tree cursor = failExpecting (closingName closing) cursor := by
  rw [closed, lexeme_bind, if_neg (by simpa using other)]

/-! ## Conditionals -/

def branch (fuel : Nat) : Parser (Expr Position) := do
  if (← lexeme) = .keyword .ifWord then conditional fuel else block fuel

def otherwise (fuel : Nat) (build : Expr Position → Expr Position) : Parser (Expr Position) := do
  if (← lexeme) = .keyword .elseWord then
    advance
    let onFalse ← branch fuel
    return build onFalse
  else failExpecting "'else'"

theorem branch_apply (fuel : Nat) (cursor : Cursor) :
    branch fuel cursor =
      if cursor.current.lexeme = .keyword .ifWord then conditional fuel cursor
      else block fuel cursor := by
  rw [branch, lexeme_bind]
  split <;> rfl

theorem otherwise_else (here : cursor.current.lexeme = .keyword .elseWord) (fuel : Nat)
    (build : Expr Position → Expr Position) :
    otherwise fuel build cursor =
      (do
        let onFalse ← branch fuel
        return build onFalse) cursor.advance := by
  rw [otherwise, lexeme_bind, if_pos here, advance_bind]

theorem otherwise_other (other : cursor.current.lexeme ≠ .keyword .elseWord) (fuel : Nat)
    (build : Expr Position → Expr Position) :
    otherwise fuel build cursor = failExpecting "'else'" cursor := by
  rw [otherwise, lexeme_bind, if_neg other]

theorem conditional_succ (fuel : Nat) (cursor : Cursor) :
    conditional (fuel + 1) cursor =
      (do
        advance
        let condition ← expression fuel
        let onTrue ← block fuel
        otherwise fuel (.conditional cursor.current.position condition onTrue)) cursor := by
  rw [conditional, position_bind]
  refine congrFun ?_ cursor
  refine bind_congr fun _ => bind_congr fun condition => bind_congr fun onTrue => ?_
  funext later
  rw [lexeme_bind]
  by_cases here : later.current.lexeme = .keyword .elseWord
  · rw [otherwise_else here]
    simp only [here]
    rw [advance_bind, lexeme_bind, bind_apply, branch_apply]
    by_cases again : later.advance.current.lexeme = .keyword .ifWord
    · rw [if_pos again]
      simp only [again]
      rfl
    · rw [if_neg again]
      generalize later.advance.current.lexeme = found at again
      split
      · exact absurd rfl again
      · rfl
  · rw [otherwise_other here]
    generalize later.current.lexeme = found at here
    split
    · exact absurd rfl here
    · rfl

end Parser

end ExprLang
