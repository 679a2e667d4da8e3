import ExprLang.Proofs.Lowering.Success
import ExprLang.Proofs.Session.Definitions
import ExprLang.Proofs.Typing.Surroundings

/-!
# Which expressions a session can evaluate

Main statement: code for an expression is generated if and only if no function of the session has a
parameter with floats, because all functions of a session are compiled next to every expression.
-/

namespace ExprLang.Session

open Lowering

variable {session : Session} {source : Bytes} {inputs : List Bytes} {body : Expr Typing}

/-- An input that is taken as an expression. -/
structure IsExpression (input : Bytes) : Prop where
  given : input.trim ≠ []
  noCommand : input.trim.head? ≠ some commandSign
  noDefinition : isDefinition input.trim = false

theorem IsExpression.answer_eq {input : Bytes} (expression : IsExpression input) :
    session.answer input = (session, session.evaluate input.trim) := by
  rw [answer_of_noCommand expression.given expression.noCommand,
    if_neg (by simp [expression.noDefinition])]

theorem Orderly.checksAll (orderly : Orderly inputs session)
    (checked : session.checkExpression source = .ok body) :
    ∃ definitions, Definition.ChecksAll .standard definitions
      (session.functions ++ [.ofExpression evaluationName body]) := by
  obtain ⟨program, checks, -⟩ := orderly.checked
  rw [checkExpression] at checked
  cases parsed : parseExpression source with
  | error errors => simp [parsed, Except.mapError, bind, Except.bind] at checked
  | ok tree =>
      have accepted : (tree.check session.known Scope.empty).1 = .ok body := by
        cases result : (tree.check session.known Scope.empty).1 with
        | error error => simp [parsed, result, Except.mapError, bind, Except.bind] at checked
        | ok typed => simpa [parsed, result, Except.mapError, bind, Except.bind] using checked
      have fresh := SignatureTable.find?_eq_none_iff.mpr orderly.reserved
      exact ⟨_, checks.append
        (.cons (orderly.known ▸ Definition.check_of_expression fresh accepted) (.nil _))⟩

theorem run_outcome_ne (module : Ssa.Module) (type : Ty) (error : LoweringError) :
    (run module type).outcome ≠ .error (.lowering error) := by
  rw [run]
  dsimp only
  split
  · simp [Reply.fail]
  · split
    · simp [Reply.fail]
    · simp [Reply.fail]
    · simp [Reply.print]

/-- Code for an expression is generated, or the first function of the session that has a parameter
with floats is the reason why not. -/
theorem Orderly.evaluate_cases (orderly : Orderly inputs session)
    (checked : session.checkExpression source = .ok body)
    (short : ∀ function ∈ session.functions, function.body.ArraysBelow arrayLimit)
    (shortBody : body.ArraysBelow arrayLimit) :
    ((∀ error, (session.evaluate source).outcome ≠ .error (.lowering error)) ∧
        ∀ function ∈ session.functions, function.Floatless) ∨
      ∃ error, session.evaluate source = .fail (.lowering error) [] ∧
        Compiler.Blames session.functions error := by
  obtain ⟨definitions, checks⟩ := orderly.checksAll checked
  obtain ⟨⟨module, compiled⟩, floatless⟩ | ⟨failure, failed, blames⟩ :=
    compileProgram_cases moduleName evaluationName checks (by
      intro function member
      obtain member | member := List.mem_append.mp member
      · exact short function member
      · rw [List.mem_singleton.mp member]
        exact shortBody)
  · refine .inl ⟨fun error => ?_, fun function member =>
      floatless function (List.mem_append_left _ member)⟩
    simp only [evaluate, checked, compile, compiled, Except.mapError]
    exact run_outcome_ne module body.type error
  · refine .inr ⟨failure.error, ?_, blames.of_append_singleton rfl⟩
    simp only [evaluate, checked, compile, failed, Except.mapError]

/-- After any inputs generating code for an expression that checks fails if and only if a function
of the session has a parameter with floats. The error is about the first such function then, whether
the expression uses it or not. -/
theorem expression_compiles_iff (inputs : List Bytes) (input : Bytes) (body : Expr Typing)
    (expression : IsExpression input)
    (checked : (start.answerAll inputs).checkExpression input.trim = .ok body)
    (short : ∀ function ∈ (start.answerAll inputs).functions,
      function.body.ArraysBelow (2 ^ 29 - 1))
    (shortBody : body.ArraysBelow (2 ^ 29 - 1)) :
    ((∀ error, ((start.answerAll inputs).answer input).2.outcome ≠ .error (.lowering error)) ↔
      ∀ function ∈ (start.answerAll inputs).functions, ∀ parameter ∈ function.parameters,
        parameter.type.contains .float = false) ∧
    ∀ error, ((start.answerAll inputs).answer input).2.outcome = .error (.lowering error) →
      ∃ before function after parameter,
        (start.answerAll inputs).functions = before ++ function :: after ∧
        (∀ earlier ∈ before, ∀ parameter ∈ earlier.parameters,
          parameter.type.contains .float = false) ∧
        (function.parameters.find? fun parameter => parameter.type.contains .float) =
          some parameter ∧
        error = ⟨function.name, function.position,
          .parameterType parameter.name parameter.type⟩ := by
  have cases := (Orderly.answerAll inputs).evaluate_cases checked short shortBody
  rw [expression.answer_eq]
  refine ⟨⟨fun compiles => ?_, fun floatless error failed => ?_⟩, fun error failed => ?_⟩
  · obtain ⟨-, floatless⟩ | ⟨error, failed, -⟩ := cases
    · exact floatless
    · exact absurd (congrArg Reply.outcome failed) (compiles error)
  · obtain ⟨compiles, -⟩ | ⟨other, -, blames⟩ := cases
    · exact compiles error failed
    · obtain ⟨before, function, after, parameter, split, -, found, -⟩ := blames
      exact TypedDefinition.Floatless.not_iff.mpr ⟨parameter, found⟩
        (floatless function (by simp [split]))
  · obtain ⟨compiles, -⟩ | ⟨other, answered, blames⟩ := cases
    · exact absurd failed (compiles error)
    · rw [answered] at failed
      cases failed
      exact blames.first

theorem eq_ok_of_filter {result : Except SessionError (Expr Typing)} {test : Expr Typing → Bool}
    (passes : (result.toOption.filter test).isSome = true) :
    ∃ body, result = .ok body ∧ test body = true := by
  obtain ⟨body, found⟩ := Option.isSome_iff_exists.mp passes
  obtain ⟨given, passed⟩ := Option.filter_eq_some_iff.mp found
  exact ⟨body, eq_ok_of_toOption given, passed⟩

theorem expression_compiles_iff_double :
    let input := Bytes.ofString "double(4)"
    let session := start.answerAll [Bytes.ofString "fn double(x: Int) \x7b x * 2 \x7d"]
    ∃ body, IsExpression input ∧ session.checkExpression input.trim = .ok body ∧
      (∀ function ∈ session.functions, function.body.ArraysBelow (2 ^ 29 - 1)) ∧
      body.ArraysBelow (2 ^ 29 - 1) ∧
      ((∀ error, (session.answer input).2.outcome ≠ .error (.lowering error)) ↔
        ∀ function ∈ session.functions, ∀ parameter ∈ function.parameters,
          parameter.type.contains .float = false) := by
  intro input session
  have expression : IsExpression input :=
    ⟨by decide +kernel, by decide +kernel, by decide +kernel⟩
  obtain ⟨body, checked, shortBody⟩ := @eq_ok_of_filter (session.checkExpression input.trim)
    (fun body => decide (body.ArraysBelow (2 ^ 29 - 1))) (by decide +kernel)
  have shortBody := of_decide_eq_true shortBody
  have short : ∀ function ∈ session.functions, function.body.ArraysBelow (2 ^ 29 - 1) := by
    decide +kernel
  -- From here on it does not matter what the session is.
  obtain ⟨inputs, same⟩ : ∃ inputs, session = start.answerAll inputs := ⟨_, rfl⟩
  clear_value session input
  subst same
  exact ⟨body, expression, checked, short, shortBody,
    (expression_compiles_iff inputs input body expression checked short shortBody).1⟩

def loweringError? (reply : Reply) : Option LoweringError :=
  match reply.outcome with
  | .error (.lowering error) => some error
  | _ => none

theorem loweringError?_eq_some {reply : Reply} {error : LoweringError}
    (failed : loweringError? reply = some error) : reply.outcome = .error (.lowering error) := by
  rw [loweringError?] at failed
  split at failed
  · rename_i same
    rw [same, Option.some.inj failed]
  · cases failed

def number? : Expr Typing → Option (Typing × Int64)
  | .integer note value => some (note, value)
  | _ => none

theorem number?_eq_some {note : Typing} {value : Int64}
    (found : number? body = some (note, value)) :
    body = .integer note value := by
  cases body with
  | integer => cases found; rfl
  | _ => cases found

/-- Once a function with a parameter with floats was defined, code is no longer generated even for a
number, although a number has no part of that type and calls no function. -/
theorem float_parameter_blocks_evaluation :
    let input := Bytes.ofString "1"
    let session := start.answerAll [Bytes.ofString "fn f(x: Float) \x7b 0 \x7d"]
    ∃ body position error, IsExpression input ∧
      session.checkExpression input.trim = .ok body ∧ body = .integer ⟨position, .int⟩ 1 ∧
      (session.answer input).2.outcome = .error (.lowering error) := by
  intro input session
  have expression : IsExpression input :=
    ⟨by decide +kernel, by decide +kernel, by decide +kernel⟩
  obtain ⟨body, checked, number⟩ := @eq_ok_of_filter (session.checkExpression input.trim)
    (fun body => number? body == some (⟨⟨1, 1⟩, .int⟩, 1)) (by decide +kernel)
  have failed : (loweringError? (session.answer input).2).isSome = true := by decide +kernel
  obtain ⟨error, failed⟩ := Option.isSome_iff_exists.mp failed
  exact ⟨body, ⟨1, 1⟩, error, expression, checked, number?_eq_some (by simpa using number),
    loweringError?_eq_some failed⟩

end ExprLang.Session
