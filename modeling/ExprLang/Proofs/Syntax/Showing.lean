import ExprLang.Proofs.Datum.Forms
import ExprLang.Proofs.Syntax.Acceptance
import ExprLang.Proofs.Typing.Closure

/-!
# Parsed trees can be shown

A tree of the language is a tree from outside with as many children as its nodes have to have. The
parser takes names from words, operators from the list of all and types from words in brackets, so
everything in a parsed tree is of a known kind and is spelled in printable ASCII.
-/

namespace ExprLang

/-! ## Trees of the language as trees from outside -/

namespace Node

def Content.ofExpr (tree : Expr α) : Content α where
  kind := tree.kind
  note := tree.note
  name :=
    match tree with
    | .ident _ name | .bind _ name _ | .call _ name _ | .each _ name _ _ => name
    | _ => ""
  integer :=
    match tree with
    | .integer _ value => value
    | _ => 0
  truth :=
    match tree with
    | .boolean _ value => value
    | _ => false
  operator :=
    match tree with
    | .binary _ operator _ _ => operator.symbol
    | _ => ""

mutual

def ofExpr (tree : Expr α) : Node α :=
  match tree with
  | .integer _ _ | .boolean _ _ | .ident _ _ => node (.ofExpr tree) []
  | .array _ elements | .call _ _ elements | .unknown _ _ elements =>
    node (.ofExpr tree) (ofExprs elements)
  | .bind _ _ inner | .length _ inner => node (.ofExpr tree) [ofExpr inner]
  | .binary _ _ first second | .sequence _ first second | .index _ first second
  | .each _ _ first second => node (.ofExpr tree) [ofExpr first, ofExpr second]
  | .conditional _ first second third =>
    node (.ofExpr tree) [ofExpr first, ofExpr second, ofExpr third]

def ofExprs : List (Expr α) → List (Node α)
  | [] => []
  | tree :: trees => ofExpr tree :: ofExprs trees

end

theorem ofExprs_eq_map (trees : List (Expr α)) : ofExprs trees = trees.map ofExpr := by
  induction trees with
  | nil => rfl
  | cons tree trees induction => rw [ofExprs, induction, List.map_cons]

theorem ofExpr_eq (tree : Expr α) :
    ofExpr tree = node (.ofExpr tree) (tree.children.map ofExpr) := by
  cases tree <;> simp [ofExpr, ofExprs_eq_map, Expr.children]

mutual

theorem render_ofExpr (tree : Expr α) : (ofExpr tree).render = tree.render := by
  cases tree with
  | array note elements | call note function elements =>
      simp [ofExpr, render, Content.ofExpr, Expr.kind, Expr.render, Content.attributes, Kind.head,
        renderAll_ofExprs elements]
  | bind note name inner | length note inner =>
      simp [ofExpr, render, renderAll, Content.ofExpr, Expr.kind, Expr.render, Content.attributes,
        Kind.head, render_ofExpr inner]
  | binary note operator first second | sequence note first second | index note first second
  | each note name first second =>
      simp [ofExpr, render, renderAll, Content.ofExpr, Expr.kind, Expr.render, Content.attributes,
        Kind.head, render_ofExpr first, render_ofExpr second]
  | conditional note first second third =>
      simp [ofExpr, render, renderAll, Content.ofExpr, Expr.kind, Expr.render, Content.attributes,
        Kind.head, render_ofExpr first, render_ofExpr second, render_ofExpr third]
  | integer | boolean | ident | unknown =>
      simp [ofExpr, render, Content.ofExpr, Expr.kind, Expr.render, Content.attributes, Kind.head]

theorem renderAll_ofExprs (trees : List (Expr α)) :
    renderAll (ofExprs trees) = Expr.renderAll trees := by
  cases trees with
  | nil => rfl
  | cons tree trees =>
      rw [ofExprs, renderAll, Expr.renderAll, render_ofExpr tree, renderAll_ofExprs trees]

end

def Definition.ofDefinition (definition : ExprLang.Definition α) : Definition α :=
  ⟨definition.name, definition.parameters, ofExpr definition.body⟩

theorem Definition.render_ofDefinition (definition : ExprLang.Definition α) :
    (ofDefinition definition).render = definition.render := by
  rw [render, ofDefinition, render_ofExpr, ExprLang.Definition.render]

theorem Definition.renderProgram_ofDefinition (definitions : List (ExprLang.Definition α)) :
    renderProgram (definitions.map ofDefinition) =
      ExprLang.Definition.renderProgram definitions := by
  rw [renderProgram, List.map_map, ExprLang.Definition.renderProgram]
  exact congrArg _ (List.map_congr_left fun definition _ => render_ofDefinition definition)

end Node

/-! ## Clear trees -/

def IsSpelling (text : String) : Prop :=
  ∀ character ∈ text.toList, 32 ≤ character.toNat ∧ character.toNat < 127

instance (text : String) : Decidable (IsSpelling text) :=
  List.decidableBAll _ text.toList

theorem IsSpelling.isAscii {text : String} (spelling : IsSpelling text) : Text.IsAscii text := by
  intro character member
  have := spelling character member
  omega

theorem IsSpelling.quote_eq {text : String} (spelling : IsSpelling text) :
    Text.quote text = Text.quoteMarks text := by
  refine Text.quote_eq_quoteMarks fun character member => ?_
  obtain ⟨low, high⟩ := spelling character member
  simp [Text.isPrintable, low, high]

theorem IsWord.isSpelling {name : String} (word : IsWord name) : IsSpelling name :=
  word.forall <| by decide +kernel

namespace Expr

inductive Every (property : Expr α → Prop) : Expr α → Prop
  | intro {tree : Expr α} (root : property tree)
      (below : ∀ child ∈ tree.children, Every property child) : Every property tree

/-- The root is of a known kind, and what it shows between quotes is printable ASCII. -/
structure IsClear (tree : Expr α) : Prop where
  known : ∀ name, tree.kind ≠ .unknown name
  spelled : IsSpelling (Node.Content.ofExpr tree).text

theorem IsClear.proper {tree : Expr α} (clear : tree.IsClear) :
    (Node.Content.ofExpr tree).IsProper :=
  ⟨clear.known, clear.spelled.isAscii⟩

theorem wellKinded_ofExpr {tree : Expr α} (clear : tree.Every IsClear) :
    (Node.ofExpr tree).WellKinded := by
  induction clear with
  | intro root below induction =>
      rw [Node.ofExpr_eq]
      refine .inner root.proper fun child member => ?_
      obtain ⟨inner, listed, rfl⟩ := List.mem_map.mp member
      exact induction inner listed

end Expr

namespace Grammar

theorem isSpelling_operator {tier : Tier} {operator : Operator}
    (listed : operator ∈ tier.operators) : IsSpelling operator.symbol := by
  have all : ∀ operator ∈ Operator.all, IsSpelling operator.symbol := by decide
  refine all operator ?_
  cases tier <;> simp only [Tier.operators, List.not_mem_nil] at listed <;> revert operator <;>
    decide

def Worded (tokens : List Token) : Prop :=
  ∀ token ∈ tokens, ∀ name, token.lexeme = .identifier name → IsWord name

theorem Worded.append {front behind : List Token} :
    Worded (front ++ behind) ↔ Worded front ∧ Worded behind :=
  List.forall_mem_append

theorem Worded.cons {token : Token} {tokens : List Token} :
    Worded (token :: tokens) ↔
      (∀ name, token.lexeme = .identifier name → IsWord name) ∧ Worded tokens :=
  List.forall_mem_cons

theorem Derives.clear {symbol : Symbol} {tokens : List Token} {trees : List (Expr Position)}
    (derives : Derives symbol tokens trees) (words : Worded tokens) :
    ∀ tree ∈ trees, tree.Every Expr.IsClear := by
  have one : ∀ {tree : Expr Position}, (∀ name, tree.kind ≠ .unknown name) →
      IsSpelling (Node.Content.ofExpr tree).text →
      (∀ child ∈ tree.children, child.Every Expr.IsClear) →
        ∀ other ∈ [tree], other.Every Expr.IsClear := by
    intro tree known spelled below other member
    rw [List.mem_singleton.mp member]
    exact .intro ⟨known, spelled⟩ below
  have more : ∀ {tree : Expr Position} {trees : List (Expr Position)},
      (∀ other ∈ [tree], other.Every Expr.IsClear) →
        (∀ other ∈ trees, other.Every Expr.IsClear) →
          ∀ other ∈ tree :: trees, other.Every Expr.IsClear := fun tree trees =>
    List.forall_mem_cons.mpr ⟨tree _ List.mem_cons_self, trees⟩
  have plain : IsSpelling "" := by decide
  induction derives with
  | bind _ named _ _ value =>
      simp only [Worded.cons] at words
      obtain ⟨-, name, -, inner⟩ := words
      exact one (by simp [Expr.kind]) (name _ named).isSpelling (value inner)
  | binding _ same | tighter _ same | operand _ same | braces _ same | choice _ same
  | last _ same => exact same words
  | ended _ _ same => exact same (Worded.append.mp words).1
  | binary listed _ _ _ _ left right =>
      simp only [Worded.append, Worded.cons] at words
      obtain ⟨before, -, behind⟩ := words
      exact one (by simp [Expr.kind]) (isSpelling_operator listed)
        (more (left before) (right behind))
  | index _ _ _ _ target position =>
      simp only [Worded.append, Worded.cons] at words
      exact one (by simp [Expr.kind]) plain (more (target words.1.1) (position words.1.2.2))
  | integer | truth | falsehood => exact one (by simp [Expr.kind]) plain (List.forall_mem_nil _)
  | ident named =>
      simp only [Worded.cons] at words
      exact one (by simp [Expr.kind]) (words.1 _ named).isSpelling (List.forall_mem_nil _)
  | call named _ _ _ inside =>
      simp only [Worded.append, Worded.cons] at words
      exact one (by simp [Expr.kind]) (words.1.1 _ named).isSpelling (inside words.1.2.2)
  | array _ _ _ inside =>
      simp only [Worded.append, Worded.cons] at words
      exact one (by simp [Expr.kind]) plain (inside words.1.2)
  | length _ _ _ _ inside =>
      simp only [Worded.append, Worded.cons] at words
      exact one (by simp [Expr.kind]) plain (inside words.1.2.2)
  | paren _ _ _ inside | block _ _ _ inside =>
      simp only [Worded.append, Worded.cons] at words
      exact inside words.1.2
  | each _ named _ _ _ bound body =>
      simp only [Worded.append, Worded.cons] at words
      obtain ⟨⟨-, name, -, limit⟩, rest⟩ := words
      exact one (by simp [Expr.kind]) (name _ named).isSpelling (more (bound limit) (body rest))
  | empty | done => exact List.forall_mem_nil _
  | first _ _ tree trees =>
      obtain ⟨here, others⟩ := Worded.append.mp words
      exact more (tree here) (trees others)
  | other _ _ _ tree trees =>
      simp only [Worded.append, Worded.cons] at words
      exact more (tree words.1.2) (trees words.2)
  | more _ _ _ tree next =>
      simp only [Worded.append, Worded.cons] at words
      exact one (by simp [Expr.kind]) plain (more (tree words.1) (next words.2.2))
  | branches _ _ _ _ _ test left right | chain _ _ _ _ _ test left right =>
      simp only [Worded.append, Worded.cons] at words
      obtain ⟨⟨⟨-, tested⟩, arm⟩, -, rest⟩ := words
      exact one (by simp [Expr.kind]) plain (more (test tested) (more (left arm) (right rest)))

/-! ## Types -/

end Grammar

/-- A type that programs can write. -/
inductive Ty.IsProper : Ty → Prop
  | int : IsProper .int
  | float : IsProper .float
  | bool : IsProper .bool
  | array {element : Ty} (proper : IsProper element) : IsProper (.array element)

theorem Ty.closed_isProper : Ty.Closed IsProper where
  int := .int
  bool := .bool
  array := .array
  element {type} isArray proper := by
    cases proper with
    | array proper => exact proper
    | _ => cases isArray

namespace Grammar

theorem DerivesType.isProper {tokens : List Token} {type : Ty} (derives : DerivesType tokens type) :
    type.IsProper := by
  induction derives with
  | named _ listed =>
      simp only [typeNames, List.mem_cons, Prod.mk.injEq, List.not_mem_nil, or_false] at listed
      rcases listed with ⟨-, rfl⟩ | ⟨-, rfl⟩ | ⟨-, rfl⟩
      · exact .int
      · exact .float
      · exact .bool
  | array _ _ _ _ inside => exact .array inside

structure IsClear (parameter : Parameter) : Prop where
  name : IsSpelling parameter.name
  type : parameter.type.IsProper

theorem DerivesParameter.isClear {tokens : List Token} {parameter : Parameter}
    (derives : DerivesParameter tokens parameter) (words : Worded tokens) : IsClear parameter := by
  obtain ⟨named, -, typed⟩ := derives
  exact ⟨((Worded.cons.mp words).1 _ named).isSpelling, typed.isProper⟩

theorem DerivesOthers.isClear {tokens : List Token} {parameters : List Parameter}
    (derives : DerivesOthers tokens parameters) (words : Worded tokens) :
    ∀ parameter ∈ parameters, IsClear parameter := by
  induction derives with
  | done => exact List.forall_mem_nil _
  | other _ one _ others =>
      simp only [Worded.append, Worded.cons] at words
      exact List.forall_mem_cons.mpr ⟨one.isClear words.1.2, others words.2⟩

theorem DerivesParameters.isClear {tokens : List Token} {parameters : List Parameter}
    (derives : DerivesParameters tokens parameters) (words : Worded tokens) :
    ∀ parameter ∈ parameters, IsClear parameter := by
  cases derives with
  | empty => exact List.forall_mem_nil _
  | first one others =>
      obtain ⟨here, behind⟩ := Worded.append.mp words
      exact List.forall_mem_cons.mpr ⟨one.isClear here, others.isClear behind⟩

structure ClearDefinition (definition : Definition Position) : Prop where
  name : IsSpelling definition.name
  parameters : ∀ parameter ∈ definition.parameters, IsClear parameter
  body : definition.body.Every Expr.IsClear

theorem DerivesProgram.clear {tokens : List Token} {definitions : List (Definition Position)}
    (derives : DerivesProgram tokens definitions) (words : Worded tokens) :
    ∀ definition ∈ definitions, ClearDefinition definition := by
  induction derives with
  | empty => exact List.forall_mem_nil _
  | definition first _ others =>
      obtain ⟨here, behind⟩ := Worded.append.mp words
      obtain ⟨-, named, -, inside, -, block⟩ := first
      simp only [Worded.append, Worded.cons] at here
      obtain ⟨⟨-, name, -, parameters⟩, -, body⟩ := here
      exact List.forall_mem_cons.mpr ⟨⟨(name _ named).isSpelling, inside.isClear parameters,
        block.clear body _ (List.mem_singleton_self _)⟩, others behind⟩

end Grammar

/-! ## Parsed trees -/

theorem Token.worded_words (source : Bytes) : Grammar.Worded (words source) :=
  fun _ member _ named => Scanner.isWord_tokens _ (List.dropLast_subset _ member) named

theorem clear_of_parseExpression {source : Bytes} {tree : Expr Position}
    (parsed : parseExpression source = .ok tree) : tree.Every Expr.IsClear := by
  obtain ⟨-, derives⟩ := (Grammar.recognizes_sequences.parse_eq_ok source tree).mp parsed
  exact derives.clear (Token.worded_words source) tree (List.mem_singleton_self _)

theorem clear_of_parseProgram {source : Bytes} {definitions : List (Definition Position)}
    (parsed : parseProgram source = .ok definitions) :
    ∀ definition ∈ definitions, Grammar.ClearDefinition definition := by
  obtain ⟨-, derives⟩ := (Grammar.recognizes_programs.parse_eq_ok source definitions).mp parsed
  exact derives.clear (Token.worded_words source)

end ExprLang
