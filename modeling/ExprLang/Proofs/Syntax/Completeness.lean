import ExprLang.Proofs.Syntax.Grammar
import ExprLang.Proofs.Syntax.Steps

/-!
# The parser accepts the grammar

On tokens that stand for a tree the parser gives that tree, if what follows cannot go on with it
and the fuel suffices.
-/

namespace ExprLang

/-! ## Clean tokens -/

/-- No token is wrong in itself. -/
def Clean (tokens : List Token) : Prop :=
  ∀ token ∈ tokens, token.error? = none

theorem Clean.right {first second : List Token} (clean : Clean (first ++ second)) :
    Clean second :=
  fun token member => clean token (List.mem_append_right first member)

theorem Clean.tail {token : Token} {tokens : List Token} (clean : Clean (token :: tokens)) :
    Clean tokens :=
  fun other member => clean other (List.mem_cons_of_mem token member)

def Cursor.ofTokens : List Token → Cursor
  | [] => ⟨⟨Position.start, .endOfInput⟩, [], []⟩
  | token :: tokens => ⟨token, tokens, []⟩

@[simp] theorem Cursor.current_ofTokens (token : Token) (tokens : List Token) :
    (ofTokens (token :: tokens)).current = token := rfl

@[simp] theorem Cursor.errors_ofTokens (tokens : List Token) : (ofTokens tokens).errors = [] := by
  cases tokens <;> rfl

section Passing

variable {token : Token} {rest : List Token} (clean : Clean (token :: rest)) (some : rest ≠ [])

include clean some

theorem Cursor.advance_ofTokens : (ofTokens (token :: rest)).advance = ofTokens rest := by
  cases rest with
  | nil => exact absurd rfl some
  | cons next rest =>
      have fine : next.error? = none := clean next (by simp)
      simp [ofTokens, advance, fine]

theorem Parser.expect_token {wanted : Lexeme} (what : String) (here : token.lexeme = wanted) :
    expect wanted what (.ofTokens (token :: rest)) = .ok ((), .ofTokens rest) := by
  have passed := @expect_ok (.ofTokens (token :: rest)) wanted what
    (Cursor.errors_ofTokens _) here
  rw [passed, Cursor.advance_ofTokens clean some]

theorem Parser.identifier_token {name : String} (what : String)
    (here : token.lexeme = .identifier name) :
    identifier what (.ofTokens (token :: rest)) = .ok (name, .ofTokens rest) := by
  have passed := @identifier_ok (.ofTokens (token :: rest)) name what
    (Cursor.errors_ofTokens _) here
  rw [passed, Cursor.advance_ofTokens clean some]

end Passing

namespace Grammar

/-! ## What comes first and what follows -/

def opens : Lexeme → Bool
  | .integer _ _ | .identifier _ | .keyword .trueWord | .keyword .falseWord | .keyword .len
  | .keyword .ifWord | .keyword .each | .mark .leftBracket | .mark .leftParen
  | .mark .leftBrace => true
  | _ => false

/-- What a run of tokens starts with. -/
def Starts : Symbol → Lexeme → Prop
  | .block, lexeme => lexeme = .mark .leftBrace
  | .conditional, lexeme => lexeme = .keyword .ifWord
  | .primary, lexeme | .operation _, lexeme => opens lexeme = true
  | .expression, lexeme | .sequence, lexeme => opens lexeme = true ∨ lexeme = .keyword .letWord
  | .arguments, _ | .others, _ => True

/-- A run of tokens starts as it should; arguments can be missing. -/
def Headed (symbol : Symbol) (tokens : List Token) : Prop :=
  symbol = .arguments ∨ symbol = .others ∨
    ∃ token rest, tokens = token :: rest ∧ Starts symbol token.lexeme

theorem Headed.append {symbol : Symbol} {tokens : List Token} (headed : Headed symbol tokens)
    (some : symbol ≠ .arguments ∧ symbol ≠ .others) (more : List Token) :
    Headed symbol (tokens ++ more) := by
  rcases headed with rfl | rfl | ⟨token, rest, rfl, first⟩
  · exact absurd rfl some.1
  · exact absurd rfl some.2
  · exact .inr (.inr ⟨token, rest ++ more, rfl, first⟩)

theorem Headed.mono {symbol other : Symbol} {tokens : List Token} (headed : Headed symbol tokens)
    (some : symbol ≠ .arguments ∧ symbol ≠ .others)
    (starts : ∀ lexeme, Starts symbol lexeme → Starts other lexeme) : Headed other tokens := by
  rcases headed with rfl | rfl | ⟨token, rest, rfl, first⟩
  · exact absurd rfl some.1
  · exact absurd rfl some.2
  · exact .inr (.inr ⟨token, rest, rfl, starts _ first⟩)

theorem Derives.headed {symbol : Symbol} {tokens : List Token} {trees : List (Expr Position)}
    (derives : Derives symbol tokens trees) : Headed symbol tokens := by
  induction derives with
  | bind starts => exact .inr (.inr ⟨_, _, rfl, .inr starts⟩)
  | binding _ headed => exact headed.mono (by simp) fun _ first => .inl first
  | binary _ _ _ _ _ headed => exact headed.append (by simp) _
  | tighter _ headed | operand _ headed => exact headed.mono (by simp) fun _ first => first
  | index _ _ _ _ headed =>
      rw [List.append_assoc]
      exact headed.append (by simp) _
  | integer digits => exact .inr (.inr ⟨_, _, rfl, by simp [Starts, opens, digits]⟩)
  | truth word | falsehood word => exact .inr (.inr ⟨_, _, rfl, by simp [Starts, opens, word]⟩)
  | ident named | call named => exact .inr (.inr ⟨_, _, rfl, by simp [Starts, opens, named]⟩)
  | array opened | paren opened =>
      exact .inr (.inr ⟨_, _, rfl, by simp [Starts, opens, opened]⟩)
  | length starts | each starts =>
      exact .inr (.inr ⟨_, _, rfl, by simp [Starts, opens, starts]⟩)
  | braces _ headed | choice _ headed =>
      refine headed.mono (by simp) fun lexeme first => ?_
      rw [Starts] at first
      rw [first]
      rfl
  | empty | first => exact .inl rfl
  | done | other => exact .inr (.inl rfl)
  | last _ headed => exact headed.mono (by simp) fun _ first => first
  | ended _ _ headed | more _ _ _ headed =>
      exact (headed.append (by simp) _).mono (by simp) fun _ first => first
  | block opened => exact .inr (.inr ⟨_, _, rfl, opened⟩)
  | branches starts | chain starts => exact .inr (.inr ⟨_, _, rfl, starts⟩)

/-! ## Operators -/

def Tier.rank : Tier → Nat
  | comparison => 2
  | sum => 3
  | product => 4
  | subscript => 5

theorem operator?_of_listed {tier : Tier} {operator : Operator} {mark : Mark}
    (listed : operator ∈ tier.operators) (spelled : mark.text = operator.symbol) :
    Parser.operator? (.mark mark) = some operator ∧ Parser.precedence operator = tier.rank := by
  have all : ∀ tier : Tier, ∀ operator ∈ tier.operators, ∀ mark : Mark,
      mark.text = operator.symbol → Parser.operator? (.mark mark) = some operator ∧
        Parser.precedence operator = tier.rank := by
    intro tier operator listed mark
    revert operator
    cases tier <;> cases mark <;> decide
  exact all tier operator listed mark spelled

/-! ## Reading -/

/-- A lexeme cannot go on with an expression in front of it. -/
def Ends (lexeme : Lexeme) : Prop :=
  lexeme ≠ .mark .leftParen ∧ lexeme ≠ .mark .leftBracket ∧ Parser.operator? lexeme = none

/-- A lexeme cannot go on with an operand of a tier in front of it. -/
def Follows (tier : Tier) (lexeme : Lexeme) : Prop :=
  lexeme ≠ .mark .leftParen ∧ (tier ≠ .subscript → lexeme ≠ .mark .leftBracket) ∧
    ∀ operator, Parser.operator? lexeme = some operator →
      Parser.precedence operator ≤ tier.rank

/-- With enough fuel a parser passes some tokens and gives a result, if they are followed as they
have to be. -/
def Reads (parser : Nat → Parser α) (rank : Nat) (tokens : List Token) (result : α)
    (follows : Lexeme → Prop) : Prop :=
  ∀ next rest fuel, Clean (tokens ++ next :: rest) → follows next.lexeme →
    8 * (tokens.length + rest.length) + rank < fuel →
      parser fuel (.ofTokens (tokens ++ next :: rest)) = .ok (result, .ofTokens (next :: rest))

theorem Reads.before {parser : Nat → Parser α} {rank : Nat} {tokens : List Token} {result : α}
    {follows : Lexeme → Prop} (reads : Reads parser rank tokens result follows)
    {behind : List Token} {fuel : Nat}
    (starts : ∃ token rest, behind = token :: rest ∧ follows token.lexeme)
    (clean : Clean (tokens ++ behind))
    (enough : 8 * (tokens.length + behind.length) + rank < fuel + 8) :
    parser fuel (.ofTokens (tokens ++ behind)) = .ok (result, .ofTokens behind) := by
  obtain ⟨next, rest, rfl, first⟩ := starts
  refine reads next rest fuel clean first ?_
  rw [List.length_cons] at enough
  omega

def ReadsOperand (tier : Tier) (tokens : List Token) (tree : Expr Position) : Prop :=
  ∀ next rest fuel floor, Clean (tokens ++ next :: rest) → Follows tier next.lexeme →
    floor ≤ tier.rank → 8 * (tokens.length + rest.length) + 3 < fuel →
      ∃ left, 8 * rest.length + 1 < left ∧
        Parser.operation fuel floor (.ofTokens (tokens ++ next :: rest)) =
          Parser.operationFrom left floor tree (.ofTokens (next :: rest))

def ReadsSequence (tokens : List Token) (tree : Expr Position) : Prop :=
  ∀ close rest fuel, Clean (tokens ++ close :: rest) →
    close.lexeme = .mark .rightBrace ∨ close.lexeme = .endOfInput →
    8 * (tokens.length + rest.length) + 5 < fuel →
      Parser.sequence fuel close.lexeme (.ofTokens (tokens ++ close :: rest)) =
        .ok (tree, if close.lexeme = .endOfInput then .ofTokens (close :: rest)
          else (Cursor.ofTokens (close :: rest)).advance)

def ReadsItems (atFirst : Bool) (tokens : List Token) (trees : List (Expr Position)) : Prop :=
  ∀ (close : Token) (mark : Mark) (what : String), close.lexeme = .mark mark →
    mark = .rightParen ∨ mark = .rightBracket →
      Reads (fun fuel => Parser.items fuel mark what atFirst) 5 (tokens ++ [close]) trees
        fun _ => True

/-- The parser reads what the grammar derives. -/
def Accepted : Symbol → List Token → List (Expr Position) → Prop
  | .expression, tokens, trees =>
    ∀ tree, trees = [tree] → Reads Parser.expression 4 tokens tree Ends
  | .operation tier, tokens, trees => ∀ tree, trees = [tree] → ReadsOperand tier tokens tree
  | .primary, tokens, trees =>
    ∀ tree, trees = [tree] → Reads Parser.primary 2 tokens tree (· ≠ .mark .leftParen)
  | .arguments, tokens, trees => ReadsItems true tokens trees
  | .others, tokens, trees => ReadsItems false tokens trees
  | .sequence, tokens, trees => ∀ tree, trees = [tree] → ReadsSequence tokens tree
  | .block, tokens, trees =>
    ∀ tree, trees = [tree] → Reads Parser.block 1 tokens tree fun _ => True
  | .conditional, tokens, trees =>
    ∀ tree, trees = [tree] → Reads Parser.conditional 1 tokens tree fun _ => True

open ExprLang.Parser

/-! ## One rule at a time -/

theorem reads_bind {start name assign : Token} {text : String} {tokens : List Token}
    {value : Expr Position} (starts : start.lexeme = .keyword .letWord)
    (named : name.lexeme = .identifier text) (assigned : assign.lexeme = .mark .assign)
    (bound : Reads expression 4 tokens value Ends) :
    Reads expression 4 (start :: name :: assign :: tokens) (.bind start.position text value)
      Ends := by
  intro next rest fuel clean ends enough
  cases fuel with
  | zero => cases enough
  | succ fuel =>
      simp only [List.cons_append, List.length_cons] at clean enough ⊢
      rw [expression_let starts, position_bind, advance_bind,
        Cursor.advance_ofTokens clean (by simp),
        bind_ok (identifier_token clean.tail (by simp) _ named),
        bind_ok (expect_token clean.tail.tail (by simp) _ assigned),
        bind_ok (bound next rest fuel clean.tail.tail.tail ends (by omega))]
      rfl

theorem operationFrom_ends {fuel floor : Nat} {left : Expr Position} {cursor : Cursor}
    (plain : cursor.current.lexeme ≠ .mark .leftBracket)
    (loose : ∀ operator, operator? cursor.current.lexeme = some operator →
      precedence operator < floor) :
    operationFrom (fuel + 1) floor left cursor = .ok (left, cursor) := by
  rw [operationFrom, position_bind, lexeme_bind]
  generalize cursor.current.lexeme = found at plain loose ⊢
  split
  · exact absurd rfl plain
  · cases listed : operator? found with
    | none => rfl
    | some operator =>
        simp only
        rw [if_pos (loose operator listed)]
        rfl

theorem operationFrom_operator {fuel floor : Nat} {left : Expr Position} {cursor : Cursor}
    {operator : Operator} (here : operator? cursor.current.lexeme = some operator)
    (tight : floor ≤ precedence operator) :
    operationFrom (fuel + 1) floor left cursor =
      (do
        advance
        let right ← operation fuel (precedence operator + 1)
        operationFrom fuel floor (.binary cursor.current.position operator left right))
        cursor := by
  rw [operationFrom, position_bind, lexeme_bind]
  generalize cursor.current.lexeme = found at here ⊢
  split
  · cases here
  · simp only [here]
    rw [if_neg (Nat.not_lt.mpr tight)]

theorem reads_binding {tokens : List Token} {tree : Expr Position}
    (operand : ReadsOperand .comparison tokens tree)
    (headed : Headed (.operation .comparison) tokens) : Reads expression 4 tokens tree Ends := by
  intro next rest fuel clean ends enough
  cases fuel with
  | zero => cases enough
  | succ fuel =>
      have none : ∀ operator, operator? next.lexeme = some operator → False := by
        simp [ends.2.2]
      obtain ⟨left, room, equal⟩ := operand next rest fuel 0 clean
        ⟨ends.1, fun _ => ends.2.1, fun operator found => (none operator found).elim⟩
        (Nat.zero_le _) (by omega)
      rw [expression_other, equal]
      · obtain ⟨fewer, rfl⟩ : ∃ fewer, left = fewer + 1 := ⟨left - 1, by omega⟩
        exact operationFrom_ends ends.2.1 fun operator found => (none operator found).elim
      · rcases headed with absurd | absurd | ⟨token, others, rfl, first⟩
        · cases absurd
        · cases absurd
        · intro same
          rw [Starts, show token.lexeme = .keyword .letWord from same] at first
          cases first

theorem Tier.rank_le (tier : Tier) : tier.rank ≤ tier.tighter.rank := by
  cases tier <;> decide

theorem readsOperand_tighter {tier : Tier} {tokens : List Token} {tree : Expr Position}
    (operand : ReadsOperand tier.tighter tokens tree) : ReadsOperand tier tokens tree := by
  intro next rest fuel floor clean follows low enough
  obtain ⟨plainParen, plain, loose⟩ := follows
  have below := tier.rank_le
  refine operand next rest fuel floor clean ⟨plainParen, fun tight => plain ?_, ?_⟩
    (low.trans below) enough
  · rintro rfl
    exact tight rfl
  · exact fun operator found => (loose operator found).trans below

theorem readsOperand_primary {tokens : List Token} {tree : Expr Position}
    (primary : Reads primary 2 tokens tree (· ≠ .mark .leftParen)) :
    ReadsOperand .subscript tokens tree := by
  intro next rest fuel floor clean follows low enough
  cases fuel with
  | zero => cases enough
  | succ fuel =>
      refine ⟨fuel, by omega, ?_⟩
      rw [operation_succ, bind_ok (primary next rest fuel clean follows.1 (by omega))]

theorem readsOperand_binary {tier : Tier} {left right : List Token} {sign : Token} {mark : Mark}
    {operator : Operator} {first second : Expr Position} (listed : operator ∈ tier.operators)
    (marked : sign.lexeme = .mark mark) (spelled : mark.text = operator.symbol)
    (before : ReadsOperand tier left first) (behind : ReadsOperand tier.tighter right second)
    (headed : Headed (.operation tier.tighter) right) :
    ReadsOperand tier (left ++ sign :: right) (.binary sign.position operator first second) := by
  intro next rest fuel floor clean follows low enough
  obtain ⟨found, rank⟩ := operator?_of_listed listed spelled
  simp only [List.append_assoc, List.cons_append, List.length_append, List.length_cons]
    at clean enough ⊢
  have tight : tier ≠ .subscript := by
    rintro rfl
    cases listed
  have higher : tier.tighter.rank = tier.rank + 1 := by
    cases tier <;> first | rfl | exact absurd rfl tight
  have sign_follows : Follows tier sign.lexeme := by
    rw [marked]
    refine ⟨?_, fun _ => ?_, fun other again => ?_⟩
    · rintro ⟨⟩
      cases found
    · rintro ⟨⟩
      cases found
    · rw [found] at again
      cases again
      exact Nat.le_of_eq rank
  obtain ⟨room, wide, read⟩ := before sign (right ++ next :: rest) fuel floor clean sign_follows low
    (by simp only [List.length_append, List.length_cons]; omega)
  obtain ⟨space, rfl⟩ : ∃ space, room = space + 1 := ⟨room - 1, by omega⟩
  simp only [List.length_append, List.length_cons] at wide
  have here : operator? (Cursor.ofTokens (sign :: (right ++ next :: rest))).current.lexeme =
      some operator := by
    rw [Cursor.current_ofTokens, marked, found]
  rw [read, operationFrom_operator here (by rw [rank]; exact low), advance_bind,
    Cursor.advance_ofTokens clean.right (by simp), rank]
  obtain ⟨last, left_over, read_right⟩ := behind next rest space (tier.rank + 1) clean.right.tail
    ⟨follows.1, fun _ => follows.2.1 tight, fun other again => by
      rw [higher]
      exact (follows.2.2 other again).trans (Nat.le_succ _)⟩ (Nat.le_of_eq higher.symm)
    (by omega)
  obtain ⟨least, rfl⟩ : ∃ least, last = least + 1 := ⟨last - 1, by omega⟩
  have ended := @operationFrom_ends least (tier.rank + 1) second (.ofTokens (next :: rest))
    (follows.2.1 tight) fun other again => Nat.lt_succ_of_le (follows.2.2 other again)
  rw [bind_ok (read_right.trans ended)]
  exact ⟨space, by omega, rfl⟩

theorem ends_of_closing {mark : Mark} (closing : mark = .rightParen ∨ mark = .rightBracket ∨
    mark = .comma ∨ mark = .semicolon ∨ mark = .leftBrace ∨ mark = .rightBrace) :
    Ends (.mark mark) := by
  rcases closing with rfl | rfl | rfl | rfl | rfl | rfl <;> exact ⟨by simp, by simp, rfl⟩

theorem readsOperand_index {target inner : List Token} {opening closing : Token}
    {tree position : Expr Position} (before : ReadsOperand .subscript target tree)
    (opens : opening.lexeme = .mark .leftBracket)
    (inside : Reads expression 4 inner position Ends)
    (closes : closing.lexeme = .mark .rightBracket) :
    ReadsOperand .subscript (target ++ opening :: inner ++ [closing])
      (.index opening.position tree position) := by
  intro next rest fuel floor clean follows low enough
  simp only [List.append_assoc, List.cons_append, List.nil_append, List.length_append,
    List.length_cons, List.length_nil] at clean enough ⊢
  obtain ⟨room, wide, read⟩ := before opening (inner ++ closing :: next :: rest) fuel floor clean
    ⟨by simp [opens], by simp, by simp [opens, operator?]⟩ low
    (by simp only [List.length_append, List.length_cons]; omega)
  simp only [List.length_append, List.length_cons] at wide
  obtain ⟨space, rfl⟩ : ∃ space, room = space + 1 := ⟨room - 1, by omega⟩
  refine ⟨space, by omega, ?_⟩
  have tail := clean.right
  rw [read, operationFrom_index opens, position_bind, advance_bind,
    Cursor.advance_ofTokens tail (by simp),
    bind_ok (inside closing (next :: rest) space tail.tail
      (by rw [closes]; exact ends_of_closing (by simp)) (by simp only [List.length_cons]; omega)),
    bind_ok (expect_token tail.tail.right (by simp) _ closes)]
  rfl

section Words

variable {token : Token}

theorem reads_single {tree : Expr Position}
    (passes : ∀ fuel cursor, cursor.current = token →
      primary (fuel + 1) cursor = .ok (tree, cursor.advance)) :
    Reads primary 2 [token] tree (· ≠ .mark .leftParen) := by
  intro next rest fuel clean _ enough
  cases fuel with
  | zero => cases enough
  | succ fuel =>
      simp only [List.cons_append, List.nil_append] at clean ⊢
      rw [passes fuel _ (Cursor.current_ofTokens _ _), Cursor.advance_ofTokens clean (by simp)]

theorem reads_integer {numeral : String} {value : Option Int64}
    (digits : token.lexeme = .integer numeral value) :
    Reads primary 2 [token] (.integer token.position token.lexeme.value)
      (· ≠ .mark .leftParen) := by
  refine reads_single fun fuel cursor here => ?_
  subst here
  exact primary_integer digits

theorem reads_truth (word : token.lexeme = .keyword .trueWord) :
    Reads primary 2 [token] (.boolean token.position true) (· ≠ .mark .leftParen) := by
  refine reads_single fun fuel cursor here => ?_
  subst here
  exact primary_truth word

theorem reads_falsehood (word : token.lexeme = .keyword .falseWord) :
    Reads primary 2 [token] (.boolean token.position false) (· ≠ .mark .leftParen) := by
  refine reads_single fun fuel cursor here => ?_
  subst here
  exact primary_falsehood word

theorem reads_ident {text : String} (named : token.lexeme = .identifier text) :
    Reads primary 2 [token] (.ident token.position text) (· ≠ .mark .leftParen) := by
  intro next rest fuel clean follows enough
  cases fuel with
  | zero => cases enough
  | succ fuel =>
      simp only [List.cons_append, List.nil_append] at clean ⊢
      rw [primary_name named, Cursor.advance_ofTokens clean (by simp), afterName_other follows]
      rfl

end Words

theorem reads_call {name opening closing : Token} {text : String} {inner : List Token}
    {trees : List (Expr Position)} (named : name.lexeme = .identifier text)
    (opens : opening.lexeme = .mark .leftParen) (inside : ReadsItems true inner trees)
    (closes : closing.lexeme = .mark .rightParen) :
    Reads primary 2 (name :: opening :: inner ++ [closing]) (.call name.position text trees)
      (· ≠ .mark .leftParen) := by
  intro next rest fuel clean _ enough
  cases fuel with
  | zero => cases enough
  | succ fuel =>
      simp only [List.cons_append, List.length_cons] at clean enough ⊢
      rw [primary_name named, Cursor.advance_ofTokens clean (by simp), afterName_paren opens,
        Cursor.advance_ofTokens clean.tail (by simp),
        bind_ok (inside closing .rightParen _ closes (.inl rfl) next rest fuel clean.tail.tail
          trivial (by omega))]
      rfl

theorem reads_array {opening closing : Token} {inner : List Token} {trees : List (Expr Position)}
    (opens : opening.lexeme = .mark .leftBracket) (inside : ReadsItems true inner trees)
    (closes : closing.lexeme = .mark .rightBracket) :
    Reads primary 2 (opening :: inner ++ [closing]) (.array opening.position trees)
      (· ≠ .mark .leftParen) := by
  intro next rest fuel clean _ enough
  cases fuel with
  | zero => cases enough
  | succ fuel =>
      simp only [List.cons_append, List.length_cons] at clean enough ⊢
      rw [primary_bracket opens, Cursor.advance_ofTokens clean (by simp),
        bind_ok (inside closing .rightBracket _ closes (.inr rfl) next rest fuel clean.tail
          trivial (by omega))]
      rfl

theorem reads_length {start opening closing : Token} {inner : List Token} {tree : Expr Position}
    (starts : start.lexeme = .keyword .len) (opens : opening.lexeme = .mark .leftParen)
    (inside : Reads expression 4 inner tree Ends) (closes : closing.lexeme = .mark .rightParen) :
    Reads primary 2 (start :: opening :: inner ++ [closing]) (.length start.position tree)
      (· ≠ .mark .leftParen) := by
  intro next rest fuel clean _ enough
  cases fuel with
  | zero => cases enough
  | succ fuel =>
      simp only [List.append_assoc, List.cons_append, List.nil_append, List.length_cons,
        List.length_append, List.length_nil] at clean enough ⊢
      rw [primary_length starts, Cursor.advance_ofTokens clean (by simp),
        bind_ok (expect_token clean.tail (by simp) _ opens),
        bind_ok (inside closing (next :: rest) fuel clean.tail.tail
          (by rw [closes]; exact ends_of_closing (by simp))
          (by simp only [List.length_cons]; omega)),
        bind_ok (expect_token clean.tail.tail.right (by simp) _ closes)]
      rfl

theorem reads_paren {opening closing : Token} {inner : List Token} {tree : Expr Position}
    (opens : opening.lexeme = .mark .leftParen) (inside : Reads expression 4 inner tree Ends)
    (closes : closing.lexeme = .mark .rightParen) :
    Reads primary 2 (opening :: inner ++ [closing]) tree (· ≠ .mark .leftParen) := by
  intro next rest fuel clean _ enough
  cases fuel with
  | zero => cases enough
  | succ fuel =>
      simp only [List.append_assoc, List.cons_append, List.nil_append, List.length_cons,
        List.length_append, List.length_nil] at clean enough ⊢
      rw [primary_paren opens, Cursor.advance_ofTokens clean (by simp),
        bind_ok (inside closing (next :: rest) fuel clean.tail
          (by rw [closes]; exact ends_of_closing (by simp))
          (by simp only [List.length_cons]; omega)),
        bind_ok (expect_token clean.tail.right (by simp) _ closes)]
      rfl

theorem headed_block {tokens : List Token} (headed : Headed .block tokens) :
    ∃ token rest, tokens = token :: rest ∧ token.lexeme = .mark .leftBrace := by
  rcases headed with absurd | absurd | ⟨token, rest, rfl, first⟩
  · cases absurd
  · cases absurd
  · exact ⟨token, rest, rfl, first⟩

theorem block_ends {tokens : List Token} (headed : Headed .block tokens) (more : List Token) :
    ∃ token rest, tokens ++ more = token :: rest ∧ Ends token.lexeme := by
  obtain ⟨token, rest, rfl, first⟩ := headed_block headed
  exact ⟨token, rest ++ more, rfl, by rw [first]; exact ends_of_closing (by simp)⟩

theorem reads_braces {tokens : List Token} {tree : Expr Position}
    (block : Reads block 1 tokens tree fun _ => True) (headed : Headed .block tokens) :
    Reads primary 2 tokens tree (· ≠ .mark .leftParen) := by
  intro next rest fuel clean _ enough
  cases fuel with
  | zero => cases enough
  | succ fuel =>
      have read := block next rest fuel clean trivial (by omega)
      obtain ⟨token, others, rfl, first⟩ := headed_block headed
      exact (primary_brace first).trans read

theorem reads_choice {tokens : List Token} {tree : Expr Position}
    (conditional : Reads conditional 1 tokens tree fun _ => True)
    (headed : Headed .conditional tokens) :
    Reads primary 2 tokens tree (· ≠ .mark .leftParen) := by
  intro next rest fuel clean _ enough
  cases fuel with
  | zero => cases enough
  | succ fuel =>
      have read := conditional next rest fuel clean trivial (by omega)
      rcases headed with absurd | absurd | ⟨token, others, rfl, first⟩
      · cases absurd
      · cases absurd
      · have word : token.lexeme = .keyword .ifWord := first
        exact (primary_if word).trans read

theorem reads_each {start name between : Token} {text : String} {inner body : List Token}
    {bound tree : Expr Position} (starts : start.lexeme = .keyword .each)
    (named : name.lexeme = .identifier text) (word : between.lexeme = .keyword .inWord)
    (limit : Reads expression 4 inner bound Ends)
    (block : Reads block 1 body tree fun _ => True) (headed : Headed .block body) :
    Reads primary 2 (start :: name :: between :: inner ++ body)
      (.each start.position text bound tree) (· ≠ .mark .leftParen) := by
  intro next rest fuel clean _ enough
  cases fuel with
  | zero => cases enough
  | succ fuel =>
      simp only [List.append_assoc, List.cons_append, List.length_cons, List.length_append]
        at clean enough ⊢
      have tail := clean.tail.tail.tail
      rw [primary_each starts, Cursor.advance_ofTokens clean (by simp),
        bind_ok (identifier_token clean.tail (by simp) _ named),
        bind_ok (expect_token clean.tail.tail (by simp) _ word),
        bind_ok (limit.before (block_ends headed _) tail
          (by simp only [List.length_append, List.length_cons]; omega)),
        bind_ok (block next rest fuel tail.right trivial (by omega))]
      rfl

/-! ## Lists -/

section Lists

variable {tokens rest : List Token} {tree : Expr Position} {trees : List (Expr Position)}

theorem items_close {fuel : Nat} {mark : Mark} {what : String} {atFirst : Bool} {close : Token}
    {rest : List Token} (closes : close.lexeme = .mark mark) (clean : Clean (close :: rest))
    (some : rest ≠ []) : items (fuel + 1) mark what atFirst (.ofTokens (close :: rest)) =
      .ok ([], .ofTokens rest) := by
  rw [items_closing closes, advance_bind, Cursor.advance_ofTokens clean some]
  rfl

/-- The first of some items is read, and then the others. -/
theorem itemsFrom_reads {fuel : Nat} {mark : Mark} {what : String} {close next : Token}
    {behind : List Token} (expression : Reads expression 4 tokens tree Ends)
    (others : ReadsItems false rest trees)
    (commas : rest = [] ∨ ∃ comma more, rest = comma :: more ∧ comma.lexeme = .mark .comma)
    (closes : close.lexeme = .mark mark) (closing : mark = .rightParen ∨ mark = .rightBracket)
    (clean : Clean (tokens ++ (rest ++ close :: next :: behind)))
    (enough : 8 * (tokens.length + rest.length + 1 + behind.length) + 4 < fuel)
    (some : tokens ≠ []) :
    itemsFrom fuel mark what (.ofTokens (tokens ++ (rest ++ close :: next :: behind))) =
      .ok (tree :: trees, .ofTokens (next :: behind)) := by
  rw [itemsFrom]
  rw [show rest ++ close :: next :: behind = rest ++ [close] ++ next :: behind by simp]
    at clean ⊢
  have follows : ∃ token more, rest ++ [close] ++ next :: behind = token :: more ∧
      Ends token.lexeme := by
    rcases commas with rfl | ⟨comma, more, rfl, between⟩
    · refine ⟨close, next :: behind, rfl, ?_⟩
      rw [closes]
      rcases closing with rfl | rfl <;> exact ends_of_closing (by simp)
    · exact ⟨comma, _, rfl, by rw [between]; exact ends_of_closing (by simp)⟩
  have present := List.length_pos_iff.mpr some
  rw [bind_ok (expression.before follows clean
      (by simp only [List.length_append, List.length_cons, List.length_nil]; omega)),
    bind_ok (others close mark what closes closing next behind fuel clean.right trivial
      (by simp only [List.length_append, List.length_cons, List.length_nil]; omega))]
  rfl

theorem readsItems_empty (atFirst : Bool) : ReadsItems atFirst [] [] := by
  intro close mark what closes _ next rest fuel clean _ enough
  cases fuel with
  | zero => cases enough
  | succ fuel => exact items_close closes clean (by simp)

theorem readsItems_first (expression : Reads expression 4 tokens tree Ends)
    (headed : Headed .expression tokens) (others : ReadsItems false rest trees)
    (commas : rest = [] ∨ ∃ comma more, rest = comma :: more ∧ comma.lexeme = .mark .comma) :
    ReadsItems true (tokens ++ rest) (tree :: trees) := by
  intro close mark what closes closing next behind fuel clean _ enough
  cases fuel with
  | zero => cases enough
  | succ fuel =>
      simp only [List.length_append, List.length_cons, List.length_nil] at enough
      simp only [List.append_assoc, List.cons_append, List.nil_append] at clean ⊢
      rcases headed with absurd | absurd | ⟨token, more, rfl, first⟩
      · cases absurd
      · cases absurd
      · have different : token.lexeme ≠ .mark mark := by
          intro same
          rw [Starts, same] at first
          rcases closing with rfl | rfl <;> rcases first with first | first <;> cases first
        refine (items_first different).trans ?_
        exact itemsFrom_reads expression others commas closes closing clean
          (by simp only [List.length_cons] at enough ⊢; omega) (by simp)

theorem readsItems_other {comma : Token} (between : comma.lexeme = .mark .comma)
    (expression : Reads expression 4 tokens tree Ends) (some : tokens ≠ [])
    (others : ReadsItems false rest trees)
    (commas : rest = [] ∨ ∃ comma more, rest = comma :: more ∧ comma.lexeme = .mark .comma) :
    ReadsItems false (comma :: tokens ++ rest) (tree :: trees) := by
  intro close mark what closes closing next behind fuel clean _ enough
  cases fuel with
  | zero => cases enough
  | succ fuel =>
      simp only [List.length_append, List.length_cons, List.length_nil] at enough
      have different : comma.lexeme ≠ .mark mark := by
        rw [between]
        rcases closing with rfl | rfl <;> simp
      simp only [List.cons_append, List.nil_append, List.append_assoc] at clean ⊢
      rw [items_next different, bind_ok (expect_token clean (by simp) _ between)]
      exact itemsFrom_reads expression others commas closes closing clean.tail (by omega) some

end Lists

/-! ## Sequences, blocks and conditionals -/

section Sequences

variable {tokens : List Token} {tree : Expr Position}

def Closes (lexeme : Lexeme) : Prop :=
  lexeme = .mark .rightBrace ∨ lexeme = .endOfInput

theorem Closes.ends {lexeme : Lexeme} (closes : Closes lexeme) : Ends lexeme := by
  rcases closes with rfl | rfl <;> exact ⟨by simp, by simp, rfl⟩

theorem Closes.ne_semicolon {lexeme : Lexeme} (closes : Closes lexeme) :
    lexeme ≠ .mark .semicolon := by
  rcases closes with rfl | rfl <;> simp

theorem Closes.not_starts {lexeme : Lexeme} (closes : Closes lexeme) :
    ¬ Starts .sequence lexeme := by
  rcases closes with rfl | rfl <;> simp [Starts, opens]

theorem readsSequence_last (expression : Reads expression 4 tokens tree Ends) :
    ReadsSequence tokens tree := by
  intro close rest fuel clean closes enough
  cases fuel with
  | zero => cases enough
  | succ fuel =>
      have other : close.lexeme ≠ .mark .semicolon := Closes.ne_semicolon closes
      rw [sequence_succ,
        bind_ok (expression close rest fuel clean (Closes.ends closes) (by omega)),
        following_other other]
      exact closed_ok rfl tree

theorem readsSequence_ended {mark : Token} (expression : Reads expression 4 tokens tree Ends)
    (marked : mark.lexeme = .mark .semicolon) : ReadsSequence (tokens ++ [mark]) tree := by
  intro close rest fuel clean closes enough
  cases fuel with
  | zero => cases enough
  | succ fuel =>
      simp only [List.append_assoc, List.cons_append, List.nil_append, List.length_append,
        List.length_cons, List.length_nil] at clean enough ⊢
      have passed := Cursor.advance_ofTokens clean.right (by simp)
      have read := expression mark (close :: rest) fuel clean
        (by rw [marked]; exact ends_of_closing (by simp)) (by simp only [List.length_cons]; omega)
      rw [sequence_succ, bind_ok read, following_ended marked (by rw [passed]; rfl), passed]
      exact closed_ok rfl tree

theorem readsSequence_more {mark : Token} {rest : List Token} {next : Expr Position}
    (expression : Reads expression 4 tokens tree Ends) (marked : mark.lexeme = .mark .semicolon)
    (sequence : ReadsSequence rest next) (headed : Headed .sequence rest) :
    ReadsSequence (tokens ++ mark :: rest) (.sequence tree.note tree next) := by
  intro close behind fuel clean closes enough
  cases fuel with
  | zero => cases enough
  | succ fuel =>
      simp only [List.append_assoc, List.cons_append, List.length_append, List.length_cons]
        at clean enough ⊢
      have tail := clean.right
      have passed := Cursor.advance_ofTokens tail (by simp)
      have read := expression mark (rest ++ close :: behind) fuel clean
        (by rw [marked]; exact ends_of_closing (by simp))
        (by simp only [List.length_append, List.length_cons]; omega)
      have different :
          (Cursor.ofTokens (rest ++ close :: behind)).current.lexeme ≠ close.lexeme := by
        rcases headed with absurd | absurd | ⟨token, more, rfl, first⟩
        · cases absurd
        · cases absurd
        · intro same
          rw [show token.lexeme = close.lexeme from same] at first
          exact Closes.not_starts closes first
      rw [sequence_succ, bind_ok read, following_more marked (by rwa [passed]), passed,
        bind_ok (sequence close behind fuel tail.tail closes (by omega))]
      rfl

theorem reads_block {opening closing : Token} {inner : List Token}
    (opens : opening.lexeme = .mark .leftBrace) (inside : ReadsSequence inner tree)
    (headed : Headed .sequence inner) (closes : closing.lexeme = .mark .rightBrace) :
    Reads block 1 (opening :: inner ++ [closing]) tree fun _ => True := by
  intro next rest fuel clean _ enough
  cases fuel with
  | zero => cases enough
  | succ fuel =>
      simp only [List.append_assoc, List.cons_append, List.nil_append, List.length_append,
        List.length_cons, List.length_nil] at clean enough ⊢
      have read := inside closing (next :: rest) fuel clean.tail (.inl closes)
        (by simp only [List.length_cons]; omega)
      rw [closes, if_neg (by simp), Cursor.advance_ofTokens clean.tail.right (by simp)] at read
      rw [block, bind_ok (expect_token clean (by simp) _ opens), lexeme_bind]
      rcases headed with absurd | absurd | ⟨token, more, rfl, first⟩
      · cases absurd
      · cases absurd
      · have different : token.lexeme ≠ .mark .rightBrace := by
          intro same
          rw [same] at first
          exact Closes.not_starts (.inl rfl) first
        rw [if_neg (by simpa using different)]
        exact read

/-- A conditional is read if what stands behind its `else` is. -/
theorem reads_conditional {start between : Token} {inner left right : List Token}
    {condition onTrue onFalse : Expr Position}
    (test : Reads expression 4 inner condition Ends)
    (first : Reads block 1 left onTrue fun _ => True) (headed : Headed .block left)
    (word : between.lexeme = .keyword .elseWord)
    (second : (Headed .block right ∧ Reads block 1 right onFalse fun _ => True) ∨
      (Headed .conditional right ∧ Reads conditional 1 right onFalse fun _ => True)) :
    Reads conditional 1 (start :: inner ++ left ++ between :: right)
      (.conditional start.position condition onTrue onFalse) fun _ => True := by
  intro next rest fuel clean _ enough
  cases fuel with
  | zero => cases enough
  | succ fuel =>
      simp only [List.append_assoc, List.cons_append, List.length_append, List.length_cons]
        at clean enough ⊢
      have tail := clean.tail
      have last := tail.right.right
      rw [conditional_succ, advance_bind, Cursor.advance_ofTokens clean (by simp),
        bind_ok (test.before (block_ends headed _) tail
          (by simp only [List.length_append, List.length_cons]; omega)),
        bind_ok (first between (right ++ next :: rest) fuel tail.right trivial
          (by simp only [List.length_append, List.length_cons]; omega)),
        otherwise_else word, Cursor.advance_ofTokens last (by simp), bind_apply, branch_apply]
      rcases second with ⟨head, other⟩ | ⟨head, other⟩
      · have read := other next rest fuel last.tail trivial (by omega)
        obtain ⟨token, more, rfl, is⟩ := headed_block head
        rw [if_neg (by simp [is]), read]
        rfl
      · have read := other next rest fuel last.tail trivial (by omega)
        rcases head with absurd | absurd | ⟨token, more, rfl, is⟩
        · cases absurd
        · cases absurd
        · rw [if_pos (by exact is), read]
          rfl

end Sequences

/-! ## All rules -/

theorem Derives.commas {tokens : List Token} {trees : List (Expr Position)}
    (derives : Derives .others tokens trees) :
    tokens = [] ∨ ∃ comma more, tokens = comma :: more ∧ comma.lexeme = .mark .comma := by
  cases derives with
  | done => exact .inl rfl
  | other between _ _ => exact .inr ⟨_, _, rfl, between⟩

theorem Derives.ne_nil {tokens : List Token} {trees : List (Expr Position)}
    (derives : Derives .expression tokens trees) : tokens ≠ [] := by
  rcases derives.headed with absurd | absurd | ⟨token, more, rfl, _⟩
  · cases absurd
  · cases absurd
  · simp

theorem Derives.accepted {symbol : Symbol} {tokens : List Token} {trees : List (Expr Position)}
    (derives : Derives symbol tokens trees) : Accepted symbol tokens trees := by
  induction derives with
  | bind starts named assigned _ bound =>
      rintro _ ⟨⟩
      exact reads_bind starts named assigned (bound _ rfl)
  | binding operation operand =>
      rintro _ ⟨⟩
      exact reads_binding (operand _ rfl) operation.headed
  | binary listed marked spelled _ right before behind =>
      rintro _ ⟨⟩
      exact readsOperand_binary listed marked spelled (before _ rfl) (behind _ rfl) right.headed
  | tighter _ operand =>
      rintro _ ⟨⟩
      exact readsOperand_tighter (operand _ rfl)
  | index _ opens _ closes before inside =>
      rintro _ ⟨⟩
      exact readsOperand_index (before _ rfl) opens (inside _ rfl) closes
  | operand _ primary =>
      rintro _ ⟨⟩
      exact readsOperand_primary (primary _ rfl)
  | integer digits =>
      rintro _ ⟨⟩
      exact reads_integer digits
  | truth word =>
      rintro _ ⟨⟩
      exact reads_truth word
  | falsehood word =>
      rintro _ ⟨⟩
      exact reads_falsehood word
  | ident named =>
      rintro _ ⟨⟩
      exact reads_ident named
  | call named opens _ closes inside =>
      rintro _ ⟨⟩
      exact reads_call named opens inside closes
  | array opens _ closes inside =>
      rintro _ ⟨⟩
      exact reads_array opens inside closes
  | length starts opens _ closes inside =>
      rintro _ ⟨⟩
      exact reads_length starts opens (inside _ rfl) closes
  | paren opens _ closes inside =>
      rintro _ ⟨⟩
      exact reads_paren opens (inside _ rfl) closes
  | braces derived block =>
      rintro _ ⟨⟩
      exact reads_braces (block _ rfl) derived.headed
  | choice derived conditional =>
      rintro _ ⟨⟩
      exact reads_choice (conditional _ rfl) derived.headed
  | each starts named word _ derived limit block =>
      rintro _ ⟨⟩
      exact reads_each starts named word (limit _ rfl) (block _ rfl) derived.headed
  | empty => exact readsItems_empty true
  | first derived behind expression others =>
      exact readsItems_first (expression _ rfl) derived.headed others behind.commas
  | done => exact readsItems_empty false
  | other between derived behind expression others =>
      exact readsItems_other between (expression _ rfl) derived.ne_nil others behind.commas
  | last _ expression =>
      rintro _ ⟨⟩
      exact readsSequence_last (expression _ rfl)
  | ended _ marked expression =>
      rintro _ ⟨⟩
      exact readsSequence_ended (expression _ rfl) marked
  | more _ marked derived expression sequence =>
      rintro _ ⟨⟩
      exact readsSequence_more (expression _ rfl) marked (sequence _ rfl) derived.headed
  | block opens derived closes inside =>
      rintro _ ⟨⟩
      exact reads_block opens (inside _ rfl) derived.headed closes
  | branches _ _ left word right test first second =>
      rintro _ ⟨⟩
      exact reads_conditional (test _ rfl) (first _ rfl) left.headed word
        (.inl ⟨right.headed, second _ rfl⟩)
  | chain _ _ left word right test first second =>
      rintro _ ⟨⟩
      exact reads_conditional (test _ rfl) (first _ rfl) left.headed word
        (.inr ⟨right.headed, second _ rfl⟩)

/-! ## Types and programs -/

theorem parse_typeNames {text : String} {type : Ty} (listed : (text, type) ∈ typeNames) :
    Ty.parse text = .ok type ∧ (text == "Array") = false := by
  simp only [typeNames, List.mem_cons, Prod.mk.injEq, List.not_mem_nil, or_false] at listed
  rcases listed with ⟨rfl, rfl⟩ | ⟨rfl, rfl⟩ | ⟨rfl, rfl⟩ <;>
    exact ⟨by rw [Ty.parse, Ty.read]; decide, by decide⟩

theorem DerivesType.reads {tokens : List Token} {found : Ty} (derives : DerivesType tokens found) :
    Reads type 1 tokens found fun _ => True := by
  induction derives with
  | named named listed =>
      obtain ⟨parsed, plain⟩ := parse_typeNames listed
      intro next rest fuel clean _ enough
      cases fuel with
      | zero => cases enough
      | succ fuel =>
          simp only [List.cons_append, List.nil_append] at clean ⊢
          rw [type, bind_ok (identifier_token clean (by simp) _ named)]
          simp only [plain, Bool.false_eq_true, if_false, parsed]
          rfl
  | array starts opens _ closes inside =>
      intro next rest fuel clean _ enough
      cases fuel with
      | zero => cases enough
      | succ fuel =>
          simp only [List.append_assoc, List.cons_append, List.nil_append, List.length_append,
            List.length_cons, List.length_nil] at clean enough ⊢
          rw [type, bind_ok (identifier_token clean (by simp) _ starts)]
          simp only [beq_self_eq_true, if_true]
          rw [bind_ok (expect_token clean.tail (by simp) _ opens),
            bind_ok (inside _ (next :: rest) fuel clean.tail.tail trivial
              (by simp only [List.length_cons]; omega)),
            bind_ok (expect_token clean.tail.tail.right (by simp) _ closes)]
          rfl

def ReadsParameters (atFirst : Bool) (tokens : List Token) (found : List Parameter) : Prop :=
  ∀ close : Token, close.lexeme = .mark .rightParen →
    Reads (fun fuel => parameters fuel atFirst) 5 (tokens ++ [close]) found fun _ => True

theorem readsParameters_empty (atFirst : Bool) : ReadsParameters atFirst [] [] := by
  intro close closes next rest fuel clean _ enough
  cases fuel with
  | zero => cases enough
  | succ fuel =>
      simp only [List.cons_append, List.nil_append] at clean ⊢
      rw [parameters_closing closes, advance_bind, Cursor.advance_ofTokens clean (by simp)]
      rfl

/-- The first of some parameters is read, and then the others. -/
theorem parametersFrom_reads {tokens rest : List Token} {parameter : Parameter}
    {others : List Parameter} (one : DerivesParameter tokens parameter)
    (behind : ReadsParameters false rest others) {close next : Token} {more : List Token}
    (closes : close.lexeme = .mark .rightParen) {fuel : Nat}
    (clean : Clean (tokens ++ (rest ++ close :: next :: more)))
    (enough : 8 * (tokens.length + rest.length + 1 + more.length) + 4 < fuel) :
    parametersFrom fuel (.ofTokens (tokens ++ (rest ++ close :: next :: more))) =
      .ok (parameter :: others, .ofTokens (next :: more)) := by
  obtain ⟨named, between, typed⟩ := one
  rename_i name colon text tokens found
  simp only [List.cons_append, List.length_cons] at clean enough ⊢
  have shape : rest ++ close :: next :: more = rest ++ [close] ++ next :: more := by simp
  have tail := clean.tail.tail
  have some : ∃ token others, rest ++ close :: next :: more = token :: others ∧ True := by
    cases rest <;> simp
  rw [parametersFrom, position_bind, bind_ok (identifier_token clean (by simp) _ named),
    bind_ok (expect_token clean.tail (by simp) _ between),
    bind_ok (typed.reads.before some tail
      (by simp only [List.length_append, List.length_cons]; omega))]
  rw [shape] at tail ⊢
  rw [bind_ok (behind close closes next more fuel tail.right trivial
    (by simp only [List.length_append, List.length_cons, List.length_nil]; omega))]
  rfl

theorem DerivesOthers.reads {tokens : List Token} {found : List Parameter}
    (derives : DerivesOthers tokens found) : ReadsParameters false tokens found := by
  induction derives with
  | done => exact readsParameters_empty false
  | other between one _ others =>
      intro close closes next rest fuel clean _ enough
      cases fuel with
      | zero => cases enough
      | succ fuel =>
          simp only [List.append_assoc, List.cons_append, List.nil_append, List.length_append,
            List.length_cons, List.length_nil] at clean enough ⊢
          rw [parameters_next (by simp [between]),
            bind_ok (expect_token clean (by simp) _ between)]
          exact parametersFrom_reads one others closes clean.tail (by omega)

theorem DerivesParameters.reads {tokens : List Token} {found : List Parameter}
    (derives : DerivesParameters tokens found) : ReadsParameters true tokens found := by
  cases derives with
  | empty => exact readsParameters_empty true
  | first one others =>
      intro close closes next rest fuel clean _ enough
      cases fuel with
      | zero => cases enough
      | succ fuel =>
          simp only [List.append_assoc, List.cons_append, List.nil_append, List.length_append,
            List.length_cons, List.length_nil] at clean enough ⊢
          have read := @parametersFrom_reads _ _ _ _ one others.reads close next rest closes fuel
            clean (by omega)
          obtain ⟨named, _, _⟩ := one
          exact (parameters_first (by simp [named])).trans read

theorem DerivesDefinition.reads {tokens : List Token} {found : Definition Position}
    (derives : DerivesDefinition tokens found) {behind : List Token} {fuel : Nat}
    (some : behind ≠ []) (clean : Clean (tokens ++ behind))
    (enough : 8 * (tokens.length + behind.length) < fuel + 8) :
    definition fuel (.ofTokens (tokens ++ behind)) = .ok (found, .ofTokens behind) := by
  obtain ⟨starts, named, opens, inside, closes, block⟩ := derives
  rename_i start name opening closing text inner rest found body
  obtain ⟨next, more, rfl⟩ := List.exists_cons_of_ne_nil some
  simp only [List.append_assoc, List.cons_append, List.length_append, List.length_cons]
    at clean enough ⊢
  have shape : inner ++ closing :: (rest ++ next :: more) =
    inner ++ [closing] ++ (rest ++ next :: more) := by simp
  have follows : ∃ token others, rest ++ next :: more = token :: others ∧ True := by
    cases rest <;> simp
  have read := block.accepted body rfl
  rw [definition, position_bind, bind_ok (expect_token clean (by simp) _ starts),
    bind_ok (identifier_token clean.tail (by simp) _ named),
    bind_ok (expect_token clean.tail.tail (by simp) _ opens)]
  have tail := clean.tail.tail.tail
  rw [shape] at tail ⊢
  rw [bind_ok ((inside.reads closing closes).before follows tail
      (by simp only [List.length_append, List.length_cons, List.length_nil]; omega)),
    bind_ok (read next more fuel tail.right trivial (by omega))]
  rfl

theorem DerivesProgram.reads {tokens : List Token} {found : List (Definition Position)}
    (derives : DerivesProgram tokens found) {last : Token} (ends : last.lexeme = .endOfInput)
    {fuel : Nat} (clean : Clean (tokens ++ [last])) (enough : 8 * tokens.length + 1 < fuel) :
    definitions fuel (.ofTokens (tokens ++ [last])) = .ok (found, .ofTokens [last]) := by
  induction derives generalizing fuel with
  | empty =>
      cases fuel with
      | zero => cases enough
      | succ fuel =>
          rw [definitions, lexeme_bind]
          simp only [List.nil_append, Cursor.current_ofTokens, ends, beq_self_eq_true, if_true]
          rfl
  | definition first _ others =>
      cases fuel with
      | zero => cases enough
      | succ fuel =>
          simp only [List.append_assoc, List.length_append] at clean enough ⊢
          have read := first.reads (by simp) clean
            (show 8 * (_ + _) < fuel + 8 by
              simp only [List.length_append, List.length_cons, List.length_nil]
              omega)
          obtain ⟨starts, _, _, _, _, _⟩ := first
          rw [definitions, lexeme_bind]
          simp only [List.cons_append, Cursor.current_ofTokens, starts] at read ⊢
          rw [if_neg (by decide), bind_ok read, bind_ok (others clean.right ?_)]
          · rfl
          · simp only [List.length_append, List.length_cons] at enough
            omega

end Grammar

end ExprLang
