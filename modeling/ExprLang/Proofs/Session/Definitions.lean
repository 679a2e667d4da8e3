import ExprLang.Proofs.Typing.Programs
import ExprLang.Session

/-!
# What a session holds

Main statement: after any inputs a session knows the standard functions followed by its own, which
came out of accepted definitions in the order in which these were given, each checked against what
was known before it. An input that fails, an expression and a command leave the session as it was.
-/

namespace ExprLang.Session

variable {session : Session} {source input : Bytes} {inputs : List Bytes}
  {functions others : List TypedDefinition} {function : TypedDefinition}

def answerAll (session : Session) (inputs : List Bytes) : Session :=
  inputs.foldl (fun session input => (session.answer input).1) session

@[simp] theorem answerAll_nil : session.answerAll [] = session := rfl

@[simp] theorem answerAll_append_singleton :
    session.answerAll (inputs ++ [input]) = ((session.answerAll inputs).answer input).1 := by
  simp [answerAll]

def extend (session : Session) (functions : List TypedDefinition) : Session :=
  ⟨session.known.extend functions, session.functions ++ functions⟩

/-- A text of definitions is accepted in a session, and these functions come out of it. -/
structure Defines (session : Session) (source : Bytes) (definitions : List (Definition Position))
    (functions : List TypedDefinition) : Prop where
  parsed : parseProgram source = .ok definitions
  allowed : ∀ definition ∈ definitions, definition.name ≠ evaluationName
  checked : Definition.ChecksAll session.known definitions functions

theorem define_eq_ok {later : Session} (defined : session.define source = .ok (later, functions)) :
    later = session.extend functions ∧
      ∃ definitions, session.Defines source definitions functions := by
  rw [define] at defined
  cases parsed : parseProgram source with
  | error errors => simp [parsed, Except.mapError, bind, Except.bind] at defined
  | ok definitions =>
      simp only [parsed, Except.mapError, bind, Except.bind] at defined
      split at defined
      · cases defined
      · rename_i allowed
        split at defined
        · rename_i typed known checked
          cases defined
          obtain ⟨checks, rfl⟩ := Definition.checkAll_eq_ok_iff.mp checked
          refine ⟨rfl, definitions, parsed, fun definition member reserved => allowed ?_, checks⟩
          exact List.any_eq_true.mpr ⟨definition, member, by simp [reserved]⟩
        · cases defined

/-- What is no command is a text of definitions or an expression. -/
theorem answer_of_noCommand (given : input.trim ≠ [])
    (noCommand : input.trim.head? ≠ some commandSign) :
    session.answer input =
      if isDefinition input.trim then
        match session.define input.trim with
        | .ok (session, functions) =>
          (session, .print (Bytes.ofString (String.join (functions.map announce))))
        | .error error => (session, .fail error [])
      else (session, session.evaluate input.trim) := by
  have named : ∀ command : Bytes, command.head? = some commandSign → input.trim ≠ command := by
    rintro command sign rfl
    exact noCommand sign
  have plain : typeCommand.isPrefixOf input.trim = false := by
    rw [Bool.eq_false_iff]
    intro isTypeCommand
    rcases List.isPrefixOf_iff_prefix.mp isTypeCommand with ⟨rest, same⟩
    have sign : typeCommand.head? = some commandSign := by decide
    exact named _ (by rw [List.head?_append, sign]; rfl) same.symm
  rw [answer, if_neg (by simp [given]), if_neg (by simpa using named _ (by decide)),
    if_neg (by simpa using named _ (by decide)), if_neg (by simp [plain])]
  exact if_neg (by simp [noCommand])

/-- A definition that does not fail adds exactly its functions. -/
theorem define_of_answer {quit : Bool} (definition : isDefinition input.trim = true)
    (noCommand : input.trim.head? ≠ some commandSign)
    (accepted : (session.answer input).2.outcome = .ok quit) :
    ∃ definitions functions, parseProgram input.trim = .ok definitions ∧
      Definition.ChecksAll session.known definitions functions ∧
      (session.answer input).1 = session.extend functions ∧
      (session.answer input).2 =
        .print (Bytes.ofString (String.join (functions.map announce))) := by
  have given : input.trim ≠ [] := by
    intro none
    rw [none] at definition
    exact absurd definition (by decide)
  rw [answer_of_noCommand given noCommand, if_pos definition] at accepted ⊢
  split at accepted
  · rename_i later functions defined
    rcases define_eq_ok defined with ⟨rfl, definitions, defines⟩
    exact ⟨definitions, functions, defines.parsed, defines.checked, rfl, rfl⟩
  · cases accepted

/-- An answer leaves the session as it was, or it adds all functions of a text of definitions. -/
theorem answer_cases (session : Session) (input : Bytes) :
    (session.answer input).1 = session ∨
      isDefinition input.trim = true ∧ input.trim.head? ≠ some commandSign ∧
        ∃ definitions functions, session.Defines input.trim definitions functions ∧
          session.answer input = (session.extend functions,
            .print (Bytes.ofString (String.join (functions.map announce)))) := by
  rw [answer]
  split
  · exact .inl rfl
  split
  · exact .inl rfl
  split
  · exact .inl rfl
  split
  · exact .inl rfl
  split
  · exact .inl rfl
  rename_i noCommand
  split
  · rename_i definition
    split
    · rename_i defined
      obtain ⟨rfl, definitions, defines⟩ := define_eq_ok defined
      exact .inr ⟨definition, by simpa using noCommand, definitions, _, defines, rfl⟩
    · exact .inl rfl
  · exact .inl rfl

/-- A session that some inputs can lead to: its functions make up a checked program, all of whose
definitions stand in the inputs. -/
structure Orderly (inputs : List Bytes) (session : Session) : Prop where
  known : session.known = SignatureTable.standard.extend session.functions
  distinct : session.known.names.Nodup
  reserved : evaluationName ∉ session.known.names
  checked : ∃ program, Definition.ChecksAll .standard program session.functions ∧
    ∀ definition ∈ program, ∃ input ∈ inputs, ∃ definitions,
      parseProgram input.trim = .ok definitions ∧ definition ∈ definitions

namespace Orderly

theorem start : Orderly [] start where
  known := by simp [Session.start]
  distinct := by decide
  reserved := by decide
  checked := ⟨[], .nil _, by simp⟩

theorem of_subset {more : List Bytes} (orderly : Orderly inputs session)
    (subset : inputs ⊆ more) : Orderly more session :=
  { orderly with
    checked := by
      obtain ⟨program, checks, written⟩ := orderly.checked
      refine ⟨program, checks, fun definition member => ?_⟩
      obtain ⟨input, given, text⟩ := written definition member
      exact ⟨input, subset given, text⟩ }

theorem extend {definitions : List (Definition Position)} (orderly : Orderly inputs session)
    (given : input ∈ inputs) (defines : session.Defines input.trim definitions functions) :
    Orderly inputs (session.extend functions) where
  known := by simp [Session.extend, orderly.known]
  distinct := defines.checked.nodup orderly.distinct
  reserved := by
    simp only [Session.extend, SignatureTable.names_extend, List.mem_append, not_or]
    refine ⟨orderly.reserved, fun taken => ?_⟩
    rw [defines.checked.names] at taken
    obtain ⟨definition, member, reserved⟩ := List.mem_map.mp taken
    exact defines.allowed definition member reserved
  checked := by
    obtain ⟨program, checks, written⟩ := orderly.checked
    refine ⟨program ++ definitions, checks.append (orderly.known ▸ defines.checked), ?_⟩
    intro definition member
    obtain member | member := List.mem_append.mp member
    · exact written definition member
    · exact ⟨input, given, definitions, defines.parsed, member⟩

theorem answer (orderly : Orderly inputs session) (input : Bytes) :
    Orderly (inputs ++ [input]) (session.answer input).1 := by
  have more : Orderly (inputs ++ [input]) session :=
    orderly.of_subset (List.subset_append_left ..)
  obtain same | ⟨-, -, definitions, functions, defines, answered⟩ := answer_cases session input
  · rwa [same]
  · rw [answered]
    exact more.extend (by simp) defines

theorem answerAll (inputs : List Bytes) : Orderly inputs (Session.start.answerAll inputs) := by
  induction inputs using List.reverseRecOn with
  | nil => exact start
  | append_singleton inputs input orderly =>
      rw [answerAll_append_singleton]
      exact orderly.answer input

end Orderly

/-- After any inputs the table of a session lists the standard functions and then its own, each of
which was checked against exactly the entries before it, and no name is taken twice or reserved. A
further input adds all functions of a text of definitions, or it changes nothing; the latter if it
fails and if it is not a definition. A definition that does not fail adds exactly its functions, one
for each definition in the order of the text, and says so. -/
theorem definitions_all_or_nothing (inputs : List Bytes) :
    let session := start.answerAll inputs
    session.known.entries = SignatureTable.standard.entries ++
        session.functions.map (fun function => (function.name, function.signature)) ∧
      session.known.names.Nodup ∧ evaluationName ∉ session.known.names ∧
      (∀ before function after, session.functions = before ++ function :: after →
        ∃ input ∈ inputs, ∃ definitions, parseProgram input.trim = .ok definitions ∧
          ∃ definition ∈ definitions, definition.check ⟨SignatureTable.standard.entries ++
            before.map fun function => (function.name, function.signature)⟩ = .ok function) ∧
      ∀ input,
        (∀ error, (session.answer input).2.outcome = .error error →
          (session.answer input).1 = session) ∧
        (isDefinition input.trim = false ∨ input.trim.head? = some commandSign →
          (session.answer input).1 = session) ∧
        ((session.answer input).1 ≠ session →
          ∃ definitions functions, parseProgram input.trim = .ok definitions ∧
            (session.answer input).1.functions = session.functions ++ functions ∧
            functions.map TypedDefinition.name = definitions.map Definition.name) ∧
        (isDefinition input.trim = true → input.trim.head? ≠ some commandSign →
          ∀ quit, (session.answer input).2.outcome = .ok quit →
            ∃ definitions functions, parseProgram input.trim = .ok definitions ∧
              Definition.ChecksAll session.known definitions functions ∧
              (session.answer input).1 = session.extend functions ∧
              (session.answer input).2 =
                .print (Bytes.ofString (String.join (functions.map announce)))) := by
  have orderly := Orderly.answerAll inputs
  obtain ⟨program, checks, written⟩ := orderly.checked
  refine ⟨congrArg SignatureTable.entries orderly.known, orderly.distinct, orderly.reserved, ?_, ?_⟩
  · intro before function after split
    obtain ⟨definition, member, accepted⟩ := (split ▸ checks).checked
    obtain ⟨input, given, definitions, parsed, inside⟩ := written definition member
    exact ⟨input, given, definitions, parsed, definition, inside, accepted⟩
  · intro input
    obtain same | ⟨definition, noCommand, definitions, functions, defines, answered⟩ :=
      answer_cases (start.answerAll inputs) input
    · exact ⟨fun _ _ => same, fun _ => same, fun changed => absurd same changed,
        fun definition noCommand _ => define_of_answer definition noCommand⟩
    · refine ⟨fun error failed => ?_, ?_, fun _ => ?_,
        fun definition noCommand _ => define_of_answer definition noCommand⟩
      · rw [answered] at failed
        cases failed
      · rintro (other | command)
        · rw [definition] at other
          cases other
        · exact absurd command noCommand
      · rw [answered]
        exact ⟨definitions, functions, defines.parsed, rfl, defines.checked.names⟩

end ExprLang.Session
