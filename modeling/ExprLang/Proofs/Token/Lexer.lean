import ExprLang.Syntax.Error
import ExprLang.Token.Scanner

/-!
# Reading tokens out of a buffer

A lexer is the scanner with everything that it keeps: the buffer, its place in there, the token that
it read last and the errors so far. It relies on a zero octet at the end of the buffer and does not
ask whether there is an octet at its place; where there is none, reading has no result.
-/

namespace ExprLang

/-- A place in a buffer, with the token that was read last and the errors so far. -/
structure Lexer where
  buffer : Bytes
  place : Nat
  position : Position
  current : Option Token
  errors : List SyntaxError
deriving DecidableEq, Repr

namespace Lexer

/-- The lexer in front of a source text. A zero is added to the text unless it ends in one. -/
def ofSource (source : Bytes) : Lexer :=
  ⟨if source.getLast? = some 0 then source else source ++ [0], 0, Position.start, none, []⟩

/-! ## Moving -/

def front? (lexer : Lexer) : Option UInt8 :=
  lexer.buffer[lexer.place]?

def ahead (lexer : Lexer) (offset : Nat) : UInt8 :=
  lexer.buffer[lexer.place + offset]?.getD 0

def past (lexer : Lexer) (bytes : Bytes) : Lexer :=
  { lexer with
    place := lexer.place + bytes.length
    position := lexer.position.afterAll bytes }

def advance (lexer : Lexer) : Option Lexer :=
  lexer.front?.map fun byte => lexer.past [byte]

theorem lt_of_front? {lexer : Lexer} {byte : UInt8} (found : lexer.front? = some byte) :
    lexer.place < lexer.buffer.length :=
  (List.getElem?_eq_some_iff.mp found).choose

def advanceWhile (test : UInt8 → Bool) (lexer : Lexer) : Option Lexer :=
  match _ : lexer.front? with
  | none => none
  | some byte => if test byte then (lexer.past [byte]).advanceWhile test else some lexer
termination_by lexer.buffer.length - lexer.place
decreasing_by
  have := lt_of_front? ‹lexer.front? = some _›
  simp only [past, List.length_singleton]
  omega

theorem advanceWhile_le {test : UInt8 → Bool} {lexer later : Lexer}
    (moved : lexer.advanceWhile test = some later) :
    later.buffer = lexer.buffer ∧ lexer.place ≤ later.place := by
  fun_induction advanceWhile test lexer with
  | case1 => cases moved
  | case2 lexer byte found passes induction =>
      obtain ⟨buffer, further⟩ := induction moved
      exact ⟨buffer, Nat.le_of_succ_le further⟩
  | case3 lexer byte found stops =>
      cases moved
      exact ⟨rfl, Nat.le_refl _⟩

theorem advanceWhile_lt {test : UInt8 → Bool} {lexer later : Lexer} {byte : UInt8}
    (found : lexer.front? = some byte) (passes : test byte = true)
    (moved : lexer.advanceWhile test = some later) :
    later.buffer = lexer.buffer ∧ lexer.place < later.place := by
  rw [advanceWhile] at moved
  split at moved
  · cases moved
  · rename_i other same
    cases found.symm.trans same
    rw [if_pos passes] at moved
    exact advanceWhile_le moved

def inComment (byte : UInt8) : Bool :=
  byte != 10 && byte != 0

def skip (lexer : Lexer) : Option Lexer :=
  match _ : lexer.front? with
  | none => none
  | some byte =>
    if isSeparator byte then (lexer.past [byte]).skip
    else if _ : byte = 47 ∧ lexer.ahead 1 = 47 then
      match _ : lexer.advanceWhile inComment with
      | none => none
      | some later => later.skip
    else some lexer
termination_by lexer.buffer.length - lexer.place
decreasing_by
  · have := lt_of_front? ‹lexer.front? = some _›
    simp only [past, List.length_singleton]
    omega
  · have := lt_of_front? ‹lexer.front? = some _›
    have slash : inComment byte = true := by
      rw [‹byte = 47 ∧ _›.1]
      decide
    obtain ⟨buffer, further⟩ :=
      advanceWhile_lt ‹lexer.front? = some _› slash ‹lexer.advanceWhile _ = some _›
    rw [buffer]
    omega

/-! ## Reading -/

def take (lexer : Lexer) (token : Token) : Lexer :=
  { lexer with current := some token, errors := lexer.errors ++ token.error?.toList }

def upTo (lexer later : Lexer) : Bytes :=
  (lexer.buffer.drop lexer.place).take (later.place - lexer.place)

/-- Reads the token at the place of a lexer, where neither a blank nor a comment stands. -/
def read (start : Lexer) : Option Lexer := do
  let byte ← start.front?
  if byte = 0 then return start.take ⟨start.position, .endOfInput⟩
  else if isNameStart byte then
    let behind ← start.advanceWhile isNamePart
    return behind.take ⟨start.position, .ofName (start.upTo behind).latin⟩
  else if isDigit byte then
    let behind ← start.advanceWhile isDigit
    return behind.take ⟨start.position, .ofDigits (start.upTo behind)⟩
  else
    match Mark.ofPair? byte (start.ahead 1) with
    | some pair => return (← (← start.advance).advance).take ⟨start.position, .mark pair⟩
    | none =>
      match Mark.ofByte? byte with
      | some single => return (← start.advance).take ⟨start.position, .mark single⟩
      | none => return (← start.advance).take ⟨start.position, .illegal byte⟩

def next (lexer : Lexer) : Option Lexer :=
  lexer.skip.bind read

def kind (lexer : Lexer) : String :=
  (lexer.current.map fun token => token.lexeme.kindName).getD ""

/-- The kind of the token that would be read next. The lexer is put back afterwards, and the errors
are cut off where they ended before. -/
def peek (lexer : Lexer) : Option (String × Lexer) :=
  lexer.next.map fun later =>
    (later.kind, { lexer with errors := later.errors.take lexer.errors.length })

/-! ## Looking ahead -/

theorem advanceWhile_errors {test : UInt8 → Bool} {lexer later : Lexer}
    (moved : lexer.advanceWhile test = some later) : later.errors = lexer.errors := by
  fun_induction advanceWhile test lexer with
  | case1 => cases moved
  | case2 lexer byte found passes induction => exact induction moved
  | case3 => cases moved; rfl

theorem advance_errors {lexer later : Lexer} (moved : lexer.advance = some later) :
    later.errors = lexer.errors := by
  obtain ⟨byte, -, rfl⟩ := Option.map_eq_some_iff.mp moved
  rfl

theorem skip_errors {lexer later : Lexer} (skipped : lexer.skip = some later) :
    later.errors = lexer.errors := by
  fun_induction skip lexer with
  | case1 => cases skipped
  | case2 lexer byte found separator induction => exact induction skipped
  | case3 => cases skipped
  | case4 lexer byte found noSeparator slashes middle moved induction =>
      exact (induction skipped).trans (advanceWhile_errors moved)
  | case5 => cases skipped; rfl

theorem errors_grow {lexer later : Lexer} (read : lexer.next = some later) :
    lexer.errors <+: later.errors := by
  obtain ⟨start, skipped, read⟩ := Option.bind_eq_some_iff.mp read
  rw [← skip_errors skipped]
  -- Whatever the token is, it is taken at a place that is reached without errors.
  have taken : ∀ {behind : Lexer} {token : Token}, behind.errors = start.errors →
      behind.take token = later → start.errors <+: later.errors := by
    rintro behind token same rfl
    exact same ▸ List.prefix_append _ _
  rw [Lexer.read] at read
  obtain ⟨byte, -, read⟩ := Option.bind_eq_some_iff.mp read
  split at read
  · exact taken rfl (Option.some.inj read)
  split at read
  · obtain ⟨behind, moved, read⟩ := Option.bind_eq_some_iff.mp read
    exact taken (advanceWhile_errors moved) (Option.some.inj read)
  split at read
  · obtain ⟨behind, moved, read⟩ := Option.bind_eq_some_iff.mp read
    exact taken (advanceWhile_errors moved) (Option.some.inj read)
  split at read
  · obtain ⟨middle, moved, read⟩ := Option.bind_eq_some_iff.mp read
    obtain ⟨behind, further, read⟩ := Option.bind_eq_some_iff.mp read
    exact taken ((advance_errors further).trans (advance_errors moved)) (Option.some.inj read)
  split at read
  all_goals
    obtain ⟨behind, moved, read⟩ := Option.bind_eq_some_iff.mp read
    exact taken (advance_errors moved) (Option.some.inj read)

theorem peek_eq (lexer : Lexer) : lexer.peek = lexer.next.map fun later => (later.kind, lexer) := by
  rw [peek]
  cases read : lexer.next with
  | none => rfl
  | some later =>
      have kept := List.prefix_iff_eq_take.mp (errors_grow read)
      rw [Option.map_some, Option.map_some, ← kept]

end Lexer

end ExprLang
