import ExprLang.Datum.Reader
import ExprLang.Document.Reader
import ExprLang.FileSystem

/-!
# Test cases

A document describes test cases. A heading that starts with `Test: ` begins one, and the code
blocks up to the next such heading belong to it: the source, what the program reads, and what
is expected of it. A code block without a language is only an illustration.
-/

namespace ExprLang

inductive SourceForm where
  | expression
  | program
deriving DecidableEq, Repr

inductive Subject where
  | tree
  | types
  | output
  | result
  | compileError
deriving DecidableEq, Repr

inductive BlockRole where
  | source (form : SourceForm)
  | input
  | expectation (subject : Subject)
deriving DecidableEq, Repr

def SourceForm.language : SourceForm → String
  | expression => "wayto-expr"
  | program => "wayto-program"

namespace Subject

def language : Subject → String
  | tree => "ast"
  | types => "types"
  | output => "execute"
  | result => "result"
  | compileError => "compile-error"

/-- Whether an expectation is a datum; the others are plain text. -/
def isDatum : Subject → Bool
  | tree | types => true
  | output | result | compileError => false

end Subject

def BlockRole.language : BlockRole → String
  | source form => form.language
  | input => "input"
  | expectation subject => subject.language

def BlockRole.all : List BlockRole :=
  [source .expression, source .program, input, expectation .tree, expectation .types,
   expectation .output, expectation .result, expectation .compileError]

def BlockRole.ofLanguage? (language : Bytes) : Option BlockRole :=
  all.find? fun role => Bytes.ofString role.language == language

/-- An expectation: its text without trailing line feeds, and the datum that the text holds. -/
structure Expectation where
  subject : Subject
  content : Bytes
  datum : Option Datum
  line : Nat
deriving Repr

structure TestCase where
  name : Bytes
  form : SourceForm
  source : Bytes
  input : Bytes
  expectations : List Expectation
  line : Nat
deriving Repr

def TestCase.needsExecution (test : TestCase) : Bool :=
  test.expectations.any fun expectation =>
    expectation.subject = .output || expectation.subject = .result

/-! ## Errors -/

inductive TestCaseError where
  | outside (line : Nat) (language : Bytes) (isKnown : Bool)
  | unknownLanguage (line : Nat) (language : Bytes) (test : Bytes)
  | secondInput (line : Nat) (test : Bytes)
  | badExpectation (line : Nat) (test : Bytes) (error : DatumError)
  | noSource (test : Bytes)
  | noExpectations (test : Bytes)
deriving DecidableEq, Repr

namespace TestCaseError

def lineText (line : Nat) : Bytes :=
  Bytes.ofString ("line " ++ Text.decimal line ++ ": ")

def named (name : Bytes) : Bytes :=
  [39] ++ name ++ [39]

def detail : TestCaseError → Bytes
  | outside line language isKnown =>
    lineText line ++
      (if isKnown then language ++ Bytes.ofString " fence"
        else Bytes.ofString "unknown fence language " ++ named language) ++
      Bytes.ofString " found outside of test case"
  | unknownLanguage line language test =>
    lineText line ++ Bytes.ofString "unknown fence language " ++ named language ++
      Bytes.ofString " in test " ++ named test
  | secondInput line test =>
    lineText line ++ Bytes.ofString "multiple input fences found in test " ++ named test
  | badExpectation line test error =>
    lineText line ++ Bytes.ofString "failed to parse Sexy assertion in test " ++ named test ++
      Bytes.ofString (": " ++ error.message)
  | noSource test => Bytes.ofString "test " ++ named test ++ Bytes.ofString " has no input fence"
  | noExpectations test =>
    Bytes.ofString "test " ++ named test ++ Bytes.ofString " has no assertion fences"

end TestCaseError

/-- What is wrong, and whether it was found only at the end of the document. -/
structure ExtractionError where
  error : TestCaseError
  isAtEnd : Bool
deriving DecidableEq, Repr

def ExtractionError.message (error : ExtractionError) : Bytes :=
  if error.isAtEnd then error.error.detail
  else Bytes.ofString "error walking markdown AST: " ++ error.error.detail

/-! ## Extraction -/

namespace TestCase

/-- A test case of which not all has been read. An empty source or input counts as none. -/
structure Draft where
  name : Bytes
  line : Nat
  source : Option (SourceForm × Bytes)
  input : Option Bytes
  expectations : List Expectation

def Draft.start (name : Bytes) (line : Nat) : Draft := ⟨name, line, none, none, []⟩

/-- A text unless it is empty. -/
def nonempty? (text : Bytes) : Option Bytes :=
  if text.isEmpty then none else some text

def nameOfHeading? (heading : Bytes) : Option Bytes :=
  let label := Bytes.ofString "Test: "
  if label.isPrefixOf heading then some (heading.drop label.length) else none

namespace Draft

def expect (draft : Draft) (subject : Subject) (text : Bytes) (line : Nat) :
    Except TestCaseError Draft := do
  let content := text.trimNewlines
  let datum ←
    if subject.isDatum then
      match Datum.parse content with
      | .ok datum => pure (some datum)
      | .error error => throw (.badExpectation line draft.name error)
    else pure none
  return { draft with
    expectations := draft.expectations ++ [⟨subject, content, datum, line⟩] }

def add (draft : Draft) (language content : Bytes) (line : Nat) :
    Except TestCaseError Draft :=
  match BlockRole.ofLanguage? language with
  | none => .error (.unknownLanguage line language draft.name)
  | some (.source form) =>
    if draft.source.isSome then .error (.secondInput line draft.name)
    else .ok { draft with
      source := (nonempty? content.trimNewlines).map fun source => (form, source) }
  | some .input =>
    if draft.input.isSome then .error (.secondInput line draft.name)
    else .ok { draft with input := nonempty? content }
  | some (.expectation subject) => draft.expect subject content line

def finish (draft : Draft) : Except TestCaseError TestCase :=
  match draft.source with
  | none => .error (.noSource draft.name)
  | some (form, source) =>
    if draft.expectations.isEmpty then .error (.noExpectations draft.name)
    else .ok
      { name := draft.name, form, source, input := draft.input.getD []
        expectations := draft.expectations, line := draft.line }

end Draft

/-- The finished form of a test case, if there is one. -/
def finishAll (draft : Option Draft) : Except TestCaseError (List TestCase) :=
  match draft with
  | none => .ok []
  | some draft => draft.finish.map fun test => [test]

/-- Reads an element inside a test case or outside of all. The test cases that it completes
are given back. -/
def readElement (draft : Option Draft) :
    Document.Element → Except TestCaseError (Option Draft × List TestCase)
  | .heading text line =>
    match nameOfHeading? text with
    | none => .ok (draft, [])
    | some name => (finishAll draft).map fun tests => (some (.start name line), tests)
  | .fence language content line =>
    if language.isEmpty then .ok (draft, [])
    else
      match draft with
      | none =>
        .error (.outside line language (BlockRole.ofLanguage? language).isSome)
      | some draft => (draft.add language content line).map fun draft => (some draft, [])

/-- Reads elements one after the other. -/
def readElements (draft : Option Draft) : Document → Except ExtractionError (List TestCase)
  | [] => (finishAll draft).mapError fun error => ⟨error, true⟩
  | element :: elements =>
    match readElement draft element with
    | .error error => .error ⟨error, false⟩
    | .ok (draft, tests) => (readElements draft elements).map fun others => tests ++ others

def ofDocument (document : Document) : Except ExtractionError (List TestCase) :=
  readElements none document

def ofText (text : Bytes) : Except ExtractionError (List TestCase) :=
  ofDocument (Document.ofText text)

inductive FileFailure where
  | unreadable (error : FileError)
  | badTests (path : String) (error : ExtractionError)

def FileFailure.message : FileFailure → Bytes
  | unreadable error => Bytes.ofString error.message
  | badTests path error => Bytes.ofString (path ++ ": ") ++ error.message

def ofFile (system : FileSystem) (path : String) : Except FileFailure (List TestCase) :=
  match system.read path with
  | .error error => .error (.unreadable error)
  | .ok text => (ofText text).mapError (.badTests path)

end TestCase

end ExprLang
