import ExprLang.Proofs.Syntax.Programs

/-!
# The parser accepts exactly the grammar

A text is accepted if and only if none of its tokens is wrong and the grammar derives them, and
the tree that the parser gives is the only one that the grammar derives.
-/

namespace ExprLang

/-! ## Children -/

def Node.Kind.Takes : Node.Kind → Nat → Prop
  | .integer, count | .boolean, count | .ident, count => count = 0
  | .bind, count | .length, count => count = 1
  | .binary, count | .sequence, count | .index, count | .each, count => count = 2
  | .conditional, count => count = 3
  | .array, _ | .call, _ => True
  | .unknown _, _ => False

namespace Expr

def kind : Expr α → Node.Kind
  | integer _ _ => .integer
  | boolean _ _ => .boolean
  | ident _ _ => .ident
  | array _ _ => .array
  | binary _ _ _ _ => .binary
  | bind _ _ _ => .bind
  | sequence _ _ _ => .sequence
  | call _ _ _ => .call
  | conditional _ _ _ _ => .conditional
  | index _ _ _ => .index
  | length _ _ => .length
  | each _ _ _ _ => .each
  | unknown _ name _ => .unknown name

def children : Expr α → List (Expr α)
  | integer _ _ | boolean _ _ | ident _ _ => []
  | array _ trees | call _ _ trees | unknown _ _ trees => trees
  | bind _ _ tree | length _ tree => [tree]
  | binary _ _ first second | sequence _ first second | index _ first second
  | each _ _ first second => [first, second]
  | conditional _ first second third => [first, second, third]

inductive Within : Expr α → Expr α → Prop
  | root (tree : Expr α) : Within tree tree
  | under {inner child tree : Expr α} (listed : child ∈ tree.children)
      (within : Within inner child) : Within inner tree

/-- Every node has as many children as it has to have. -/
def WellShaped (tree : Expr α) : Prop :=
  ∀ node, Within node tree → node.kind.Takes node.children.length

theorem wellShaped_of_children {tree : Expr α} (root : tree.kind.Takes tree.children.length)
    (below : ∀ child ∈ tree.children, child.WellShaped) : tree.WellShaped := by
  intro node within
  cases within with
  | root => exact root
  | under listed within => exact below _ listed node within

end Expr

namespace Grammar

open ExprLang.Parser

theorem Derives.wellShaped {symbol : Symbol} {tokens : List Token} {trees : List (Expr Position)}
    (derives : Derives symbol tokens trees) : ∀ tree ∈ trees, tree.WellShaped := by
  have one : ∀ {tree : Expr Position}, tree.kind.Takes tree.children.length →
      (∀ child ∈ tree.children, child.WellShaped) → ∀ other ∈ [tree], other.WellShaped := by
    intro tree root below other member
    rw [List.mem_singleton.mp member]
    exact Expr.wellShaped_of_children root below
  have more : ∀ {tree : Expr Position} {trees : List (Expr Position)},
      (∀ other ∈ [tree], other.WellShaped) → (∀ other ∈ trees, other.WellShaped) →
        ∀ other ∈ tree :: trees, other.WellShaped := fun tree trees =>
    List.forall_mem_cons.mpr ⟨tree _ List.mem_cons_self, trees⟩
  induction derives with
  | bind _ _ _ _ value => exact one rfl value
  | binding _ same | tighter _ same | operand _ same | braces _ same | choice _ same
  | last _ same | ended _ _ same => exact same
  | binary _ _ _ _ _ left right => exact one rfl (more left right)
  | index _ _ _ _ target position => exact one rfl (more target position)
  | integer | truth | falsehood | ident => exact one rfl (List.forall_mem_nil _)
  | call _ _ _ _ inside | array _ _ _ inside => exact one trivial inside
  | length _ _ _ _ inside => exact one rfl inside
  | paren _ _ _ inside | block _ _ _ inside => exact inside
  | each _ _ _ _ _ bound body => exact one rfl (more bound body)
  | empty | done => exact List.forall_mem_nil _
  | first _ _ tree trees | other _ _ _ tree trees => exact more tree trees
  | more _ _ _ tree next => exact one rfl (more tree next)
  | branches _ _ _ _ _ test left right | chain _ _ _ _ _ test left right =>
      exact one rfl (more test (more left right))

theorem DerivesProgram.wellShaped {tokens : List Token} {found : List (Definition Position)}
    (derives : DerivesProgram tokens found) :
    ∀ definition ∈ found, definition.body.WellShaped := by
  induction derives with
  | empty => simp
  | definition first _ others =>
      obtain ⟨_, _, _, _, _, block⟩ := first
      simp only [List.mem_cons, forall_eq_or_imp]
      exact ⟨block.wellShaped _ (by simp), others⟩

/-! ## Whole texts -/

theorem closed_stops {tree first : Expr Position} {cursor later : Cursor}
    (passed : closed .endOfInput first cursor = .ok (tree, later)) :
    later.current.lexeme = .endOfInput := by
  by_cases here : cursor.current.lexeme = .endOfInput
  · rw [closed_ok here, if_pos rfl] at passed
    cases passed
    exact here
  · rw [closed_other here] at passed
    cases passed

theorem sequence_stops {fuel : Nat} {tree : Expr Position} {cursor later : Cursor}
    (passed : Parser.sequence fuel .endOfInput cursor = .ok (tree, later)) :
    later.current.lexeme = .endOfInput := by
  induction fuel generalizing cursor tree with
  | zero => cases passed
  | succ fuel induction =>
      rw [sequence_succ] at passed
      obtain ⟨first, second, _, passed⟩ := bind_eq_ok.mp passed
      by_cases semicolon : second.current.lexeme = .mark .semicolon
      · by_cases finished : second.advance.current.lexeme = .endOfInput
        · rw [following_ended semicolon finished] at passed
          exact closed_stops passed
        · rw [following_more semicolon finished] at passed
          obtain ⟨next, third, behind, passed⟩ := bind_eq_ok.mp passed
          cases passed
          exact induction behind
      · rw [following_other semicolon] at passed
        exact closed_stops passed

theorem definitions_stops {fuel : Nat} {found : List (Definition Position)}
    {cursor later : Cursor} (passed : definitions fuel cursor = .ok (found, later)) :
    later.current.lexeme = .endOfInput := by
  induction fuel generalizing cursor found with
  | zero => cases passed
  | succ fuel induction =>
      rw [definitions, lexeme_bind] at passed
      split at passed
      · rename_i here
        cases passed
        exact eq_of_beq here
      · obtain ⟨first, second, _, passed⟩ := bind_eq_ok.mp passed
        obtain ⟨others, third, behind, passed⟩ := bind_eq_ok.mp passed
        cases passed
        exact induction behind

structure Recognizes (parser : Nat → Parser α) (goal : List Token → α → Prop) : Prop where
  outcome : ∀ {all : List Token} {cursor : Cursor}, Ended all →
    (∀ token ∈ all, ∀ name, token.lexeme = .identifier name → Plain name) →
    Stands all [] cursor → Outcome all [] goal (parser (8 * all.length) cursor)
  stops : ∀ {fuel : Nat} {cursor later : Cursor} {result : α},
    parser fuel cursor = .ok (result, later) → later.current.lexeme = .endOfInput
  reads : ∀ {tokens : List Token} {last : Token} {result : α}, goal tokens result →
    last.lexeme = .endOfInput → Clean (tokens ++ [last]) →
      parser (8 * (tokens.length + 1)) (.ofTokens (tokens ++ [last])) =
        .ok (result, .ofTokens [last])

theorem recognizes_programs : Recognizes definitions DerivesProgram where
  outcome ended plain stands := definitions_outcome ended plain stands (by simp)
  stops := definitions_stops
  reads derives ends clean := derives.reads ends clean (by omega)

theorem recognizes_sequences : Recognizes (Parser.sequence · .endOfInput)
    (fun tokens tree => Derives .sequence tokens [tree]) where
  outcome ended _ stands := by
    refine ((levels ended _).sequence (.inr rfl) stands (by simp)).mono ?_
    rintro tokens tree ⟨inner, tail, rfl, derives, ⟨_, rfl⟩ | ⟨other, _⟩⟩
    · simpa using derives
    · exact absurd rfl other
  stops := sequence_stops
  reads {tokens last tree} derives ends clean := by
    have read := derives.accepted tree rfl last [] (8 * (tokens.length + 1)) clean (.inr ends)
      (by simp only [List.length_nil]; omega)
    rwa [ends, if_pos rfl] at read

end Grammar

open Grammar

theorem Cursor.parse_eq_ok {cursor : Cursor} {parser : Parser α} {result : α} :
    cursor.parse parser = .ok result ↔
      ∃ final, parser cursor = .ok (result, final) ∧ final.errors = [] := by
  rw [parse]
  cases parsed : parser cursor with
  | error errors => simp
  | ok answer =>
      obtain ⟨found, final⟩ := answer
      cases wrong : final.errors <;> simp_all

theorem Cursor.stands_ofSource (source : Bytes) :
    Stands (Token.ofSource source) [] (ofSource source) ∧
      (ofSource source).fuel = 8 * (Token.ofSource source).length := by
  rw [ofSource]
  cases tokens : Token.ofSource source with
  | nil => exact absurd tokens (Scanner.tokens_ne_nil _)
  | cons first rest =>
      refine ⟨⟨rfl, ?_⟩, by simp [fuel]⟩
      cases wrong : first.error? <;> simp [wrong]

theorem Cursor.ofSource_of_clean {source : Bytes} (clean : Clean (Token.ofSource source)) :
    ofSource source = ofTokens (Token.ofSource source) := by
  rw [ofSource]
  cases tokens : Token.ofSource source with
  | nil => rfl
  | cons first rest =>
      rw [tokens] at clean
      simp [ofTokens, clean first (by simp)]

theorem Token.plain_ofSource {source : Bytes} :
    ∀ token ∈ ofSource source, ∀ name, token.lexeme = .identifier name → Plain name :=
  fun _ member _ named => (Scanner.isWord_tokens _ member named).plain

/-- A text is accepted if and only if no token is wrong and the grammar derives the tokens. -/
theorem Grammar.Recognizes.parse_eq_ok {parser : Nat → Parser α} {goal : List Token → α → Prop}
    (recognizes : Recognizes parser goal) (source : Bytes) (result : α) :
    (Cursor.ofSource source).parse (parser (Cursor.ofSource source).fuel) = .ok result ↔
      Clean (Token.ofSource source) ∧ goal (Token.words source) result := by
  obtain ⟨stands, fuel⟩ := Cursor.stands_ofSource source
  have ended := Token.ended_ofSource source
  rw [Cursor.parse_eq_ok, fuel]
  constructor
  · rintro ⟨final, passed, fine⟩
    have outcome := recognizes.outcome ended Token.plain_ofSource stands
    rw [passed] at outcome
    obtain ⟨tokens, standsFinal, reached⟩ := outcome
    have all := standsFinal.last_of_endOfInput ended (recognizes.stops passed)
    rw [List.nil_append] at all
    have wrong := standsFinal.errors.symm.trans fine
    rw [List.nil_append, ← all] at wrong
    refine ⟨List.filterMap_eq_nil_iff.mp wrong, ?_⟩
    rwa [Token.words, all, List.dropLast_concat]
  · rintro ⟨clean, derives⟩
    obtain ⟨last, all, ends⟩ := Token.ofSource_eq source
    rw [Cursor.ofSource_of_clean clean, all]
    rw [all] at clean
    refine ⟨_, ?_, Cursor.errors_ofTokens [last]⟩
    rw [List.length_append]
    exact recognizes.reads derives ends clean

/-- The parser accepts exactly the texts whose tokens the grammar derives, and gives the tree that
the grammar derives, which is the only one. Every node has as many children as it has to have. -/
theorem parse_iff_derives (source : Bytes) :
    (∀ definitions, parseProgram source = .ok definitions ↔
      Clean (Token.ofSource source) ∧ DerivesProgram (Token.words source) definitions) ∧
    (∀ tree, parseExpression source = .ok tree ↔
      Clean (Token.ofSource source) ∧ Derives .sequence (Token.words source) [tree]) ∧
    (∀ definitions, parseProgram source = .ok definitions →
      (∀ others, DerivesProgram (Token.words source) others → others = definitions) ∧
      ∀ definition ∈ definitions, definition.body.WellShaped) ∧
    (∀ tree, parseExpression source = .ok tree →
      (∀ other, Derives .sequence (Token.words source) [other] → other = tree) ∧
      tree.WellShaped) := by
  have programs := recognizes_programs.parse_eq_ok source
  have sequences := recognizes_sequences.parse_eq_ok source
  refine ⟨programs, sequences, fun definitions parsed => ?_, fun tree parsed => ?_⟩
  · obtain ⟨clean, derives⟩ := (programs definitions).mp parsed
    refine ⟨fun others derived => ?_, derives.wellShaped⟩
    exact Except.ok.inj (((programs others).mpr ⟨clean, derived⟩).symm.trans parsed)
  · obtain ⟨clean, derives⟩ := (sequences tree).mp parsed
    refine ⟨fun other derived => ?_, derives.wellShaped tree (by simp)⟩
    exact Except.ok.inj (((sequences other).mpr ⟨clean, derived⟩).symm.trans parsed)

end ExprLang
