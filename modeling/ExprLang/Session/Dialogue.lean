import ExprLang.Session

/-!
# Dialogues

A dialogue reads lines until they form an input, has a session answer it and goes on until
the session or the lines end. Lines that could still be completed are collected; an
interruption discards them.
-/

namespace ExprLang

inductive DialogueEvent where
  | line (text : Bytes)
  | interruption
  | failure
deriving DecidableEq, Repr

/-- A dialogue: its session, the lines that wait for more, and what has been printed and
recorded so far. -/
structure Dialogue where
  session : Session
  pending : Bytes
  output : Bytes
  errors : Bytes
  recorded : List Bytes
  prompts : List String
  isOver : Bool

namespace Dialogue

def start : Dialogue := ⟨.start, [], [], [], [], [], false⟩

def firstPrompt : String := "wayto> "

def nextPrompt : String := "  ...> "

def isIncomplete (input : Bytes) : Bool :=
  let error? :=
    if Session.isDefinition input then
      match parseProgram input with
      | .error errors => some errors.first
      | .ok _ => none
    else
      match parseExpression input with
      | .error errors => some errors.first
      | .ok _ => none
  error?.any SyntaxError.isAtEnd

/-- An input as it is recorded: on one line. -/
def onOneLine (input : Bytes) : Bytes :=
  input.map fun byte => if byte == Bytes.newline then 32 else byte

def ask (dialogue : Dialogue) : Dialogue :=
  let prompt := if dialogue.pending.isEmpty then firstPrompt else nextPrompt
  { dialogue with prompts := dialogue.prompts ++ [prompt] }

/-- Ends a dialogue because there are no more lines. -/
def close (dialogue : Dialogue) : Dialogue :=
  { dialogue with output := dialogue.output ++ [Bytes.newline], isOver := true }

def answer (dialogue : Dialogue) (input : Bytes) : Dialogue :=
  let (session, reply) := dialogue.session.answer input
  let dialogue :=
    { dialogue with session, pending := [], output := dialogue.output ++ reply.output }
  match reply.outcome with
  | .error error =>
    { dialogue with
      errors := dialogue.errors ++ Bytes.ofString "Error: " ++ error.message ++
        [Bytes.newline] }
  | .ok true => { dialogue with isOver := true }
  | .ok false =>
    if input.isEmpty then dialogue
    else { dialogue with recorded := dialogue.recorded ++ [onOneLine input] }

def pend (dialogue : Dialogue) (line : Bytes) : Bytes :=
  if dialogue.pending.isEmpty then line else dialogue.pending ++ [Bytes.newline] ++ line

def takeLine (dialogue : Dialogue) (line : Bytes) : Dialogue :=
  let collected := dialogue.pend line
  let input := collected.trim
  if !input.isEmpty && input.head? != some Session.commandSign && isIncomplete input then
    { dialogue with pending := collected }
  else dialogue.answer input

def take (dialogue : Dialogue) : DialogueEvent → Dialogue
  | .line text => dialogue.takeLine text
  | .interruption => { dialogue with pending := [] }
  | .failure => dialogue.close

def run (dialogue : Dialogue) : List DialogueEvent → Dialogue × List DialogueEvent
  | [] => if dialogue.isOver then (dialogue, []) else (dialogue.ask.close, [])
  | event :: events =>
    if dialogue.isOver then (dialogue, event :: events)
    else (dialogue.ask.take event).run events

end Dialogue

end ExprLang
