import ExprLang.Proofs.Token.Lexer
import ExprLang.Proofs.Token.Spelling

/-!
# A lexer cuts a source text up

Main statement: whatever is asked of a lexer, it never reads past its buffer, and the text that it
has gone through so far consists of the tokens that it found, each as the scanner finds it, and of
blanks and comments between them. Looking at the next token changes nothing.
-/

namespace ExprLang

/-! ## Positions -/

namespace Position

@[simp] theorem afterAll_nil (position : Position) : position.afterAll [] = position := rfl

@[simp] theorem afterAll_append (position : Position) (first second : Bytes) :
    position.afterAll (first ++ second) = (position.afterAll first).afterAll second :=
  List.foldl_append

/-- The position behind a text: one more than the number of its line feeds, and one more than the
number of octets behind the last of them. -/
def behind (text : Bytes) : Position :=
  ⟨1 + text.count 10, 1 + (text.reverse.takeWhile (· != 10)).length⟩

theorem start_afterAll (text : Bytes) : start.afterAll text = behind text := by
  induction text using List.reverseRecOn with
  | nil => rfl
  | append_singleton text byte induction =>
      rw [afterAll_append, induction, behind, behind]
      by_cases feed : byte = 10
      · subst feed
        simp [afterAll, after]
        omega
      · have other : (byte == 10) = false := by simpa using feed
        simp [afterAll, after, other, List.count_append, feed]
        omega

theorem behind_afterAll (first second : Bytes) :
    (behind first).afterAll second = behind (first ++ second) := by
  rw [← start_afterAll, ← start_afterAll, afterAll_append]

end Position

/-! ## Lexers in front of a zero -/

theorem Mark.ofPair?_getD (byte : UInt8) (text : Bytes) :
    ofPair? byte (text.head?.getD 0) = text.head?.bind (ofPair? byte) := by
  cases text with
  | nil => rfl
  | cons second text => rfl

namespace Lexer

variable {lexer : Lexer} {text rest : Bytes} {byte : UInt8}

theorem past_nil : lexer.past [] = lexer := rfl

theorem past_past (first second : Bytes) :
    (lexer.past first).past second = lexer.past (first ++ second) := by
  simp [past, Nat.add_assoc]

/-- A text stands at the place of a lexer, and the first zero behind it. -/
structure Leaves (lexer : Lexer) (text : Bytes) : Prop where
  closed : ∃ tail, lexer.buffer.drop lexer.place = text ++ 0 :: tail
  zeroFree : 0 ∉ text

namespace Leaves

theorem past {bytes : Bytes} (leaves : lexer.Leaves (bytes ++ rest)) :
    (lexer.past bytes).Leaves rest := by
  obtain ⟨⟨tail, closed⟩, zeroFree⟩ := leaves
  refine ⟨⟨tail, ?_⟩, fun member => zeroFree (List.mem_append_right _ member)⟩
  rw [Lexer.past, ← List.drop_drop, closed, List.append_assoc, List.drop_left]

theorem take {token : Token} (leaves : lexer.Leaves text) : (lexer.take token).Leaves text :=
  ⟨leaves.closed, leaves.zeroFree⟩

theorem front? (leaves : lexer.Leaves text) : lexer.front? = some (text.head?.getD 0) := by
  obtain ⟨⟨tail, closed⟩, -⟩ := leaves
  rw [Lexer.front?, ← List.head?_drop, closed]
  cases text <;> rfl

theorem ahead (leaves : lexer.Leaves (byte :: text)) : lexer.ahead 1 = text.head?.getD 0 := by
  obtain ⟨⟨tail, closed⟩, -⟩ := leaves
  rw [Lexer.ahead, ← List.getElem?_drop, closed]
  cases text <;> rfl

theorem ne_zero (leaves : lexer.Leaves (byte :: text)) : byte ≠ 0 := by
  rintro rfl
  exact leaves.zeroFree List.mem_cons_self

theorem upTo {bytes : Bytes} (leaves : lexer.Leaves (bytes ++ rest)) :
    lexer.upTo (lexer.past bytes) = bytes := by
  obtain ⟨⟨tail, closed⟩, -⟩ := leaves
  rw [Lexer.upTo, closed, Lexer.past, Nat.add_sub_cancel_left, List.append_assoc, List.take_left]

theorem upTo_takeWhile (leaves : lexer.Leaves text) (test : UInt8 → Bool) :
    lexer.upTo (lexer.past (text.takeWhile test)) = text.takeWhile test := by
  have whole : lexer.Leaves (text.takeWhile test ++ text.dropWhile test) := by
    rwa [List.takeWhile_append_dropWhile]
  exact whole.upTo

theorem advance (leaves : lexer.Leaves (byte :: text)) :
    lexer.advance = some (lexer.past [byte]) := by
  rw [Lexer.advance, leaves.front?]
  rfl

theorem advanceWhile {test : UInt8 → Bool} (stops : test 0 = false) (leaves : lexer.Leaves text) :
    lexer.advanceWhile test = some (lexer.past (text.takeWhile test)) := by
  induction text generalizing lexer with
  | nil =>
      rw [Lexer.advanceWhile]
      split
      · rename_i none
        rw [leaves.front?] at none
        cases none
      · rename_i byte found
        cases leaves.front?.symm.trans found
        simp [stops, past_nil]
  | cons first text induction =>
      rw [Lexer.advanceWhile]
      split
      · rename_i none
        rw [leaves.front?] at none
        cases none
      · rename_i byte found
        cases leaves.front?.symm.trans found
        rw [List.takeWhile_cons]
        by_cases passes : test first = true
        · have further := induction (show lexer.Leaves ([first] ++ text) from leaves).past
          simp [passes, further, past_past]
        · simp [passes, past_nil]

theorem skip_blank (leaves : lexer.Leaves (byte :: text)) (separator : isSeparator byte = true) :
    lexer.skip = (lexer.past [byte]).skip := by
  rw [Lexer.skip]
  split
  · rename_i none
    rw [leaves.front?] at none
    cases none
  · rename_i other found
    cases leaves.front?.symm.trans found
    exact if_pos separator

theorem takeWhile_inComment (leaves : lexer.Leaves text) :
    text.takeWhile inComment = text.takeWhile (· != 10) := by
  have whole : text.takeWhile (· != 0) = text := by
    rw [List.takeWhile_eq_self_iff]
    intro byte member
    rw [bne_iff_ne]
    rintro rfl
    exact leaves.zeroFree member
  have both : (fun byte : UInt8 => decide ((byte != 10) = true ∧ (byte != 0) = true)) =
      inComment := by
    funext byte
    rw [Bool.eq_iff_iff]
    simp [inComment]
  have nested := List.takeWhile_takeWhile (· != 10) (· != 0) text
  rw [whole, both] at nested
  exact nested.symm

theorem skip_comment (leaves : lexer.Leaves text) (slashes : [47, 47] <+: text) :
    lexer.skip = (lexer.past (text.takeWhile (· != 10))).skip := by
  have moved := leaves.advanceWhile (show inComment 0 = false by decide)
  rw [leaves.takeWhile_inComment] at moved
  obtain ⟨others, rfl⟩ := slashes
  have front : lexer.front? = some 47 := leaves.front?
  have ahead : lexer.ahead 1 = 47 := leaves.ahead
  rw [Lexer.skip]
  split
  · rename_i none
    rw [front] at none
    cases none
  · rename_i other found
    cases front.symm.trans found
    rw [if_neg (show ¬ isSeparator 47 = true by decide), dif_pos ⟨rfl, ahead⟩]
    split
    · rename_i none
      rw [moved] at none
      cases none
    · rename_i later same
      rw [Option.some.inj (moved.symm.trans same)]

theorem skip_solid (leaves : lexer.Leaves text) (solid : Solid text) : lexer.skip = some lexer := by
  rw [Lexer.skip]
  split
  · rename_i none
    rw [leaves.front?] at none
    cases none
  · rename_i byte found
    cases leaves.front?.symm.trans found
    cases text with
    | nil => rfl
    | cons byte text =>
        rw [if_neg (by simp [solid.noBlank byte rfl]), dif_neg]
        rintro ⟨rfl, second⟩
        rw [leaves.ahead] at second
        cases text with
        | nil => cases second
        | cons other text =>
            cases second
            exact solid.noComment ⟨text, rfl⟩

theorem skip (leaves : lexer.Leaves text) (gap : Gap text rest) (solid : Solid rest) :
    ∃ between, text = between ++ rest ∧ lexer.skip = some (lexer.past between) ∧
      Scanner.skipFrom false lexer.position text = ⟨lexer.position.afterAll between, rest⟩ := by
  induction gap generalizing lexer with
  | none rest =>
      exact ⟨[], rfl, leaves.skip_solid solid, Scanner.skipFrom_solid solid _⟩
  | @blank byte text rest separator gap induction =>
      obtain ⟨between, rfl, skipped, scanned⟩ :=
        induction (show lexer.Leaves ([byte] ++ text) from leaves).past solid
      refine ⟨byte :: between, rfl, ?_, ?_⟩
      · rw [leaves.skip_blank separator, skipped, past_past]
        rfl
      · rw [Scanner.skipFrom, if_neg (by simp), if_pos separator]
        exact scanned
  | @comment text rest slashes gap induction =>
      have whole := List.takeWhile_append_dropWhile (p := (· != 10)) (l := text)
      obtain ⟨between, split, skipped, scanned⟩ :=
        induction (show lexer.Leaves (_ ++ _) from whole.symm ▸ leaves).past solid
      refine ⟨text.takeWhile (· != 10) ++ between, ?_, ?_, ?_⟩
      · rw [List.append_assoc, ← split, whole]
      · rw [leaves.skip_comment slashes, skipped, past_past]
      · rw [Scanner.skipFrom_comment slashes, Position.afterAll_append]
        exact scanned

theorem read (leaves : lexer.Leaves text) :
    lexer.read = some ((lexer.past (text.take (Lexeme.first text).2)).take
      ⟨lexer.position, (Lexeme.first text).1⟩) := by
  cases text with
  | nil =>
      rw [Lexer.read, leaves.front?]
      rfl
  | cons byte text =>
      rw [Lexer.read, leaves.front?, Lexeme.first]
      simp only [List.head?_cons, Option.getD_some, Option.bind_eq_bind, Option.bind_some,
        if_neg leaves.ne_zero]
      split
      · rename_i start
        have part : isNamePart byte = true := by rw [isNamePart, start, Bool.true_or]
        have moved := leaves.advanceWhile (show isNamePart 0 = false by decide)
        rw [List.takeWhile_cons_of_pos part] at moved
        have between := leaves.upTo_takeWhile isNamePart
        rw [List.takeWhile_cons_of_pos part] at between
        simp [moved, between, Lexeme.take_takeWhile]
      · split
        · rename_i noName digit
          have moved := leaves.advanceWhile (show isDigit 0 = false by decide)
          rw [List.takeWhile_cons_of_pos digit] at moved
          have between := leaves.upTo_takeWhile isDigit
          rw [List.takeWhile_cons_of_pos digit] at between
          simp [moved, between, Lexeme.take_takeWhile]
        · rw [leaves.ahead, Mark.ofPair?_getD]
          cases pair : text.head?.bind (Mark.ofPair? byte) with
          | some sign =>
              obtain ⟨second, head, -⟩ := Option.bind_eq_some_iff.mp pair
              obtain ⟨others, rfl⟩ := List.head?_eq_some_iff.mp head
              have further :=
                (show lexer.Leaves ([byte] ++ second :: others) from leaves).past.advance
              simp [leaves.advance, further, past_past]
          | none =>
              cases Mark.ofByte? byte with
              | some sign => simp [leaves.advance]
              | none => simp [leaves.advance]

end Leaves

end Lexer

/-! ## Texts that are cut up -/

/-- A text was cut up into tokens, with nothing but blanks and comments in front of each of them.
The end of input has no spelling. -/
inductive Segmented : Bytes → List Token → Bytes → Prop
  | start (rest : Bytes) : Segmented [] [] rest
  | token {before between spelling rest : Bytes} {tokens : List Token} {lexeme : Lexeme}
      (segmented : Segmented before tokens (between ++ (spelling ++ rest)))
      (gap : Gap (between ++ (spelling ++ rest)) (spelling ++ rest))
      (solid : Solid (spelling ++ rest)) (spells : Spells lexeme spelling rest)
      (literal : (∀ byte, lexeme ≠ .illegal byte) → spelling = Bytes.ofString lexeme.text) :
      Segmented (before ++ (between ++ spelling))
        (tokens ++ [⟨Position.behind (before ++ between), lexeme⟩]) rest

theorem Spells.ne_nil {lexeme : Lexeme} {spelling rest : Bytes}
    (spells : Spells lexeme spelling rest) (more : lexeme ≠ .endOfInput) : spelling ≠ [] := by
  cases spells with
  | identifier => simp
  | keyword word => cases word <;> decide
  | integer _ nonempty => exact nonempty
  | mark sign => cases sign <;> decide
  | illegal => simp
  | endOfInput => exact absurd rfl more

/-- A text is at least as long as it has tokens, until the end of input has been reached. -/
theorem Segmented.length_le_or_ended {before rest : Bytes} {tokens : List Token}
    (segmented : Segmented before tokens rest) :
    (∀ token ∈ tokens, token.lexeme ≠ .endOfInput) ∧ tokens.length ≤ before.length ∨
      rest = [] ∧ tokens.getLast? = some ⟨Position.behind before, .endOfInput⟩ := by
  induction segmented with
  | start => exact .inl (by simp)
  | @token before between spelling rest tokens lexeme _ _ _ spells _ induction =>
      by_cases ended : lexeme = .endOfInput
      · subst ended
        cases spells
        exact .inr (by simp)
      · have longer := List.length_pos_iff.mpr (spells.ne_nil ended)
        obtain ⟨others, short⟩ | ⟨nothing, -⟩ := induction
        · refine .inl ⟨fun token member => ?_, by simp; omega⟩
          obtain member | member := List.mem_append.mp member
          · exact others token member
          · rw [List.mem_singleton.mp member]
            exact ended
        · simp only [List.append_eq_nil_iff] at nothing
          exact absurd nothing.2.1 (spells.ne_nil ended)

namespace Lexer

/-- What is asked of a lexer. -/
inductive Request where
  | next
  | peek
deriving DecidableEq, Repr

def answer (lexer : Lexer) : Request → Option Lexer
  | .next => lexer.next
  | .peek => lexer.peek.map Prod.snd

def run (lexer : Lexer) (requests : List Request) : Option Lexer :=
  requests.foldlM answer lexer

/-- A lexer has read the first tokens of a source text, up to its first zero. -/
structure HasRead (lexer : Lexer) (source : Bytes) (tokens : List Token) (before rest : Bytes) :
    Prop where
  whole : source.takeWhile (· != 0) = before ++ rest
  segmented : Segmented before tokens rest
  place : lexer.place = before.length
  position : lexer.position = Position.behind before
  current : lexer.current = tokens.getLast?
  errors : lexer.errors = tokens.flatMap fun token => token.error?.toList
  leaves : lexer.Leaves rest

variable {lexer : Lexer} {source before rest : Bytes} {tokens : List Token}

theorem leaves_ofSource (source : Bytes) :
    (ofSource source).Leaves (source.takeWhile (· != 0)) := by
  have zeroFree : 0 ∉ source.takeWhile (· != 0) := fun member => by
    cases List.mem_takeWhile_imp member
  refine ⟨?_, zeroFree⟩
  have whole := List.takeWhile_append_dropWhile (p := (· != 0)) (l := source)
  rw [ofSource, List.drop_zero]
  cases behind : source.dropWhile (· != 0) with
  | nil =>
      rw [behind, List.append_nil] at whole
      rw [whole] at zeroFree ⊢
      exact ⟨[], if_neg fun last => zeroFree (List.mem_of_getLast? last)⟩
  | cons first tail =>
      have zero := Lexeme.longest_dropWhile (· != 0) source first (by rw [behind]; rfl)
      have zero : first = 0 := by simpa using zero
      subst zero
      rw [behind] at whole
      split
      · exact ⟨tail, whole.symm⟩
      · exact ⟨tail ++ [0], by rw [← List.cons_append, ← List.append_assoc, whole]⟩

theorem hasRead_ofSource (source : Bytes) :
    (ofSource source).HasRead source [] [] (source.takeWhile (· != 0)) where
  whole := rfl
  segmented := .start _
  place := rfl
  position := rfl
  current := rfl
  errors := rfl
  leaves := leaves_ofSource source

theorem HasRead.next (read : lexer.HasRead source tokens before rest) :
    ∃ later token more left, lexer.next = some later ∧
      later.HasRead source (tokens ++ [token]) (before ++ more) left ∧
      Scanner.next ⟨lexer.position, rest⟩ = (token, ⟨later.position, left⟩) := by
  obtain ⟨solidRest, gap, solid⟩ := Gap.exists_solid rest
  obtain ⟨between, rfl, skipped, scanned⟩ := read.leaves.skip gap solid
  have found := read.leaves.past.read
  have spells := Lexeme.spells_first solidRest
  have scannedToken : Scanner.next ⟨lexer.position, between ++ solidRest⟩ =
      (⟨lexer.position.afterAll between, (Lexeme.first solidRest).1⟩,
        ⟨(lexer.position.afterAll between).afterAll (solidRest.take (Lexeme.first solidRest).2),
          solidRest.drop (Lexeme.first solidRest).2⟩) := by
    rw [Scanner.next, Scanner.skip, scanned]
    rfl
  -- From here on it only matters that the text behind the gap is a spelling and what is left.
  obtain ⟨spelling, left, rfl, taken, dropped⟩ : ∃ spelling left, solidRest = spelling ++ left ∧
      solidRest.take (Lexeme.first solidRest).2 = spelling ∧
      solidRest.drop (Lexeme.first solidRest).2 = left :=
    ⟨_, _, (List.take_append_drop _ _).symm, rfl, rfl⟩
  rw [taken] at found
  rw [taken, dropped] at scannedToken spells
  have position : (lexer.past between).position = Position.behind (before ++ between) := by
    rw [← Position.behind_afterAll, ← read.position]
    rfl
  refine ⟨_, _, between ++ spelling, left, by rw [Lexer.next, skipped]; exact found, ?_,
    scannedToken⟩
  exact {
    whole := by simp [read.whole]
    segmented := by
      have segmented := Segmented.token read.segmented gap solid spells spells.eq_text
      rw [← position] at segmented
      exact segmented
    place := by simp [Lexer.take, Lexer.past, read.place, Nat.add_assoc]
    position := by
      rw [← List.append_assoc, ← Position.behind_afterAll, ← position]
      rfl
    current := by simp [Lexer.take, Lexer.past]
    errors := by simp [Lexer.take, Lexer.past, read.errors]
    leaves := read.leaves.past.past.take }

theorem HasRead.run_of_ended (read : lexer.HasRead source tokens before [])
    (last : tokens.getLast? = some ⟨Position.behind before, .endOfInput⟩)
    (requests : List Request) : lexer.run requests = some lexer := by
  have again : lexer.next = some lexer := by
    have solid : Solid [] := ⟨by simp, by simp⟩
    rw [Lexer.next, read.leaves.skip_solid solid, Option.bind_some, read.leaves.read]
    have current := read.current.trans last
    rw [← read.position] at current
    simp [Lexer.take, Lexer.past, Lexeme.first, Token.error?, ← current]
  induction requests with
  | nil => rfl
  | cons request requests induction =>
      rw [run, List.foldlM_cons]
      have answered : lexer.answer request = some lexer := by
        cases request with
        | next => exact again
        | peek => rw [answer, peek_eq, again]; rfl
      rw [answered]
      exact induction

theorem exists_run (source : Bytes) (requests : List Request) :
    ∃ lexer tokens before rest, (ofSource source).run requests = some lexer ∧
      lexer.HasRead source tokens before rest ∧ tokens.length = requests.count .next ∧
      (Token.ofSource source = tokens ++ (Scanner.mk lexer.position rest).tokens ∨
        Token.ofSource source <+: tokens) := by
  induction requests using List.reverseRecOn with
  | nil => exact ⟨_, [], [], _, rfl, hasRead_ofSource source, rfl, .inl rfl⟩
  | append_singleton requests request induction =>
      obtain ⟨lexer, tokens, before, rest, ran, read, count, agrees⟩ := induction
      have onward : (ofSource source).run (requests ++ [request]) = lexer.answer request := by
        rw [run, List.foldlM_append]
        rw [run] at ran
        rw [ran]
        simp
      rw [onward]
      obtain ⟨later, token, more, left, next, readMore, scanned⟩ := read.next
      cases request with
      | next =>
          refine ⟨later, _, _, left, next, readMore, by simp [count], ?_⟩
          obtain agrees | agrees := agrees
          · rw [Scanner.tokens, scanned] at agrees
            dsimp only at agrees
            split at agrees
            · exact .inr (agrees ▸ List.prefix_refl _)
            · exact .inl (by rw [agrees, List.append_assoc]; rfl)
          · exact .inr (agrees.trans (List.prefix_append _ _))
      | peek =>
          refine ⟨lexer, tokens, before, rest, ?_, read, by simpa using count, agrees⟩
          rw [answer, peek_eq, next]
          rfl

/-- No lexer over a source text ever reads past its buffer. The text up to the first zero consists
of the tokens that were read, of blanks and comments in front of them, and of what is left; they are
the tokens of the source text, and once there are more of them than octets they have come to the end
of input, where the lexer stays. A look at the next token tells its kind and changes nothing. -/
theorem lexing_segments_source :
    (∀ (source : Bytes) (requests : List Request), ∃ lexer tokens before rest,
      (ofSource source).run requests = some lexer ∧ lexer.HasRead source tokens before rest ∧
        tokens.length = requests.count .next ∧
        (tokens <+: Token.ofSource source ∨ Token.ofSource source <+: tokens) ∧
        (source.length < requests.count .next →
          ∃ position, lexer.current = some ⟨position, .endOfInput⟩) ∧
        ∀ position, lexer.current = some ⟨position, .endOfInput⟩ →
          rest = [] ∧ ∀ more, lexer.run more = some lexer) ∧
    ∀ lexer : Lexer, lexer.peek = lexer.next.map fun later => (later.kind, lexer) := by
  refine ⟨fun source requests => ?_, peek_eq⟩
  obtain ⟨lexer, tokens, before, rest, ran, read, count, agrees⟩ := exists_run source requests
  have short : before.length ≤ source.length := by
    have part := (List.takeWhile_prefix (l := source) (· != 0)).length_le
    rw [read.whole, List.length_append] at part
    omega
  refine ⟨lexer, tokens, before, rest, ran, read, count, ?_, fun many => ?_,
    fun position last => ?_⟩
  · obtain same | longer := agrees
    · exact .inl ⟨_, same.symm⟩
    · exact .inr longer
  · obtain ⟨-, few⟩ | ⟨-, last⟩ := read.segmented.length_le_or_ended
    · omega
    · exact ⟨_, read.current.trans last⟩
  · have current := read.current.symm.trans last
    obtain ⟨others, -⟩ | ⟨rfl, ended⟩ := read.segmented.length_le_or_ended
    · exact absurd rfl (others _ (List.mem_of_getLast? current))
    · exact ⟨rfl, read.run_of_ended ended⟩

end Lexer

end ExprLang
