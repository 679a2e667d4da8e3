import ExprLang.Expr.Node
import ExprLang.Proofs.Datum.Reading
import ExprLang.Proofs.Text.Ascii

/-!
# Written trees are data

The form of a tree from outside is the text of a datum, with one list for each node, if every node
is of a known kind and shows only ASCII text. So it can be read and written again, and two trees
have the same form only if they have the same shape and show the same.
-/

namespace ExprLang

namespace Node

/-! ## Trees that can be shown -/

def Kind.isLeaf : Kind → Bool
  | integer | boolean | ident => true
  | _ => false

def Content.text (content : Content α) : String :=
  match content.kind with
  | .ident | .bind | .call | .each => content.name
  | .binary => content.operator
  | _ => ""

/-- The kind is known, and what is shown between quotes is ASCII. -/
structure Content.IsProper (content : Content α) : Prop where
  known : ∀ name, content.kind ≠ .unknown name
  ascii : Text.IsAscii content.text

/-- Everything that is shown of a tree is of a known kind, with texts in ASCII. -/
inductive WellKinded : Node α → Prop
  | missing : WellKinded missing
  | leaf {content : Content α} {children : List (Node α)} (proper : content.IsProper)
      (shut : content.kind.isLeaf = true) : WellKinded (node content children)
  | inner {content : Content α} {children : List (Node α)} (proper : content.IsProper)
      (all : ∀ child ∈ children, WellKinded child) : WellKinded (node content children)

/-! ## Trees as data -/

def Content.data (content : Content α) : List Datum :=
  match content.kind with
  | .integer => [.integer (Bytes.ofString (Text.word content.integer))]
  | .boolean => [.symbol (Bytes.ofString (Text.truth content.truth))]
  | .ident | .bind | .call | .each | .binary => [.string (Bytes.ofString content.text)]
  | _ => []

mutual

/-- A tree as a datum; what is made of the note of a node stands last in its list. -/
def datum (label : α → List Datum) : Node α → Datum
  | missing => .list []
  | node content children =>
    .list (.symbol (Bytes.ofString content.kind.head) :: (content.data ++
      ((if content.kind.isLeaf then [] else dataAll label children) ++ label content.note)))

def dataAll (label : α → List Datum) : List (Node α) → List Datum
  | [] => []
  | tree :: trees => tree.datum label :: dataAll label trees

end

theorem dataAll_eq_map (label : α → List Datum) (trees : List (Node α)) :
    dataAll label trees = trees.map (datum label) := by
  induction trees with
  | nil => rfl
  | cons tree trees induction => rw [dataAll, induction, List.map_cons]

/-! ## The text of a tree is the text of a datum -/

theorem WellKinded.proper {content : Content α} {children : List (Node α)}
    (wellKinded : WellKinded (node content children)) :
    content.IsProper ∧
      (content.kind.isLeaf = false → ∀ child ∈ children, child.WellKinded) := by
  cases wellKinded with
  | leaf proper shut => exact ⟨proper, fun isOpen => by simp [shut] at isOpen⟩
  | inner proper all => exact ⟨proper, fun _ => all⟩

theorem Kind.isName_head {kind : Kind} (known : ∀ name, kind ≠ .unknown name) :
    Datum.IsName (Bytes.ofString kind.head) := by
  cases kind with
  | unknown name => exact absurd rfl (known name)
  | _ => exact Datum.isName_of_all (by decide) (by decide)

theorem isName_truth (value : Bool) : Datum.IsName (Bytes.ofString (Text.truth value)) := by
  cases value <;> exact Datum.isName_of_all (by decide) (by decide)

theorem Content.readable_data {content : Content α} (proper : content.IsProper) :
    ∀ item ∈ content.data, item.Readable := by
  rw [data]
  split <;> simp only [List.forall_mem_singleton, List.not_mem_nil, IsEmpty.forall_iff,
    implies_true]
  · exact .integer (Text.isNumeral_word _)
  · exact .symbol (Datum.isSymbol_iff.mpr (isName_truth _))
  all_goals exact .string proper.ascii.ofString_eq.2

mutual

theorem WellKinded.readable_datum {tree : Node α} (wellKinded : tree.WellKinded)
    {label : α → List Datum} (labels : ∀ note ∈ tree.notes, ∀ item ∈ label note, item.Readable) :
    (tree.datum label).Readable := by
  cases tree with
  | missing => exact .list (List.forall_mem_nil _)
  | node content children =>
      obtain ⟨proper, below⟩ := wellKinded.proper
      rw [notes, List.forall_mem_cons] at labels
      refine .list (List.forall_mem_cons.mpr
        ⟨.symbol (Datum.isSymbol_iff.mpr (Kind.isName_head proper.known)), ?_⟩)
      refine List.forall_mem_append.mpr ⟨Content.readable_data proper,
        List.forall_mem_append.mpr ⟨?_, labels.1⟩⟩
      split
      · exact List.forall_mem_nil _
      · rename_i isOpen
        exact readable_dataAll (below (by simpa using isOpen)) labels.2

theorem readable_dataAll {trees : List (Node α)} (wellKinded : ∀ tree ∈ trees, tree.WellKinded)
    {label : α → List Datum}
    (labels : ∀ note ∈ notesAll trees, ∀ item ∈ label note, item.Readable) :
    ∀ item ∈ dataAll label trees, item.Readable := by
  cases trees with
  | nil => exact List.forall_mem_nil _
  | cons tree trees =>
      rw [List.forall_mem_cons] at wellKinded
      rw [notesAll, List.forall_mem_append] at labels
      exact List.forall_mem_cons.mpr ⟨wellKinded.1.readable_datum labels.1,
        readable_dataAll wellKinded.2 labels.2⟩

end

theorem render_node {content : Content α} (known : ∀ name, content.kind ≠ .unknown name)
    (children : List (Node α)) :
    (node content children).render = Text.form content.kind.head
      (content.attributes ++ if content.kind.isLeaf then [] else renderAll children) := by
  rw [render]
  cases kind : content.kind with
  | unknown name => exact absurd kind (known name)
  | integer | boolean | ident => simp [Kind.isLeaf]
  | _ => simp [Kind.isLeaf]

theorem Content.map_attributes {content : Content α} (proper : content.IsProper) :
    content.attributes.map Bytes.ofString = content.data.map Datum.render := by
  have quoted := proper.ascii.ofString_quoteMarks
  rw [text] at quoted
  rw [attributes, data, text]
  cases kind : content.kind <;>
    simp_all [Datum.render, Datum.Kind.write]

mutual

theorem WellKinded.ofString_render {tree : Node α} (wellKinded : tree.WellKinded) :
    Bytes.ofString tree.render = (tree.datum fun _ => []).render := by
  cases tree with
  | missing => exact (by decide : Bytes.ofString "()" = [40, 41])
  | node content children =>
      obtain ⟨proper, below⟩ := wellKinded.proper
      have inside : (if content.kind.isLeaf then [] else renderAll children).map Bytes.ofString =
          (if content.kind.isLeaf then [] else dataAll (fun _ => []) children).map
            Datum.render := by
        split
        · rfl
        · rename_i isOpen
          exact map_renderAll (below (by simpa using isOpen))
      rw [render_node proper.known, Text.ofString_form, datum, Datum.render_list, List.map_cons,
        List.append_nil, List.map_append, List.map_append, inside, Content.map_attributes proper]
      rfl

theorem map_renderAll {trees : List (Node α)} (wellKinded : ∀ tree ∈ trees, tree.WellKinded) :
    (renderAll trees).map Bytes.ofString = (dataAll (fun _ => []) trees).map Datum.render := by
  cases trees with
  | nil => rfl
  | cons tree trees =>
      rw [List.forall_mem_cons] at wellKinded
      rw [renderAll, List.map_cons, wellKinded.1.ofString_render, map_renderAll wellKinded.2]
      rfl

end

theorem WellKinded.parse_render {tree : Node α} (wellKinded : tree.WellKinded) :
    Datum.parse (Bytes.ofString tree.render) = .ok (tree.datum fun _ => []) := by
  rw [wellKinded.ofString_render]
  exact Datum.parse_render (wellKinded.readable_datum (by simp))

/-! ## What a form tells -/

/-- A node without its note and what its kind has no use for. -/
def Content.essence (content : Content α) : Content Unit :=
  match content.kind with
  | .integer => ⟨.integer, (), "", content.integer, false, ""⟩
  | .boolean => ⟨.boolean, (), "", 0, content.truth, ""⟩
  | .binary => ⟨.binary, (), "", 0, false, content.operator⟩
  | .ident | .bind | .call | .each => ⟨content.kind, (), content.name, 0, false, ""⟩
  | kind => ⟨kind, (), "", 0, false, ""⟩

mutual

/-- A tree without notes and what the kinds of its nodes have no use for. -/
def essence : Node α → Node Unit
  | missing => missing
  | node content children =>
    node content.essence (if content.kind.isLeaf then [] else essenceAll children)

def essenceAll : List (Node α) → List (Node Unit)
  | [] => []
  | tree :: trees => tree.essence :: essenceAll trees

end

theorem Content.essence_eq (content : Content α) :
    content.essence.kind = content.kind ∧ content.essence.attributes = content.attributes := by
  cases kind : content.kind <;> simp [essence, attributes, kind]

mutual

theorem render_essence (tree : Node α) : tree.essence.render = tree.render := by
  cases tree with
  | missing => rfl
  | node content children =>
      obtain ⟨same, shown⟩ := content.essence_eq
      rw [essence, render, render, same, shown]
      cases kind : content.kind <;> simp [Kind.isLeaf, renderAll_essenceAll children]

theorem renderAll_essenceAll (trees : List (Node α)) :
    renderAll (essenceAll trees) = renderAll trees := by
  cases trees with
  | nil => rfl
  | cons tree trees =>
      rw [essenceAll, renderAll, renderAll, render_essence tree, renderAll_essenceAll trees]

end

def Kind.all : List Kind :=
  [integer, boolean, array, ident, binary, bind, sequence, call, conditional, index, length, each]

theorem Kind.mem_all {kind : Kind} (known : ∀ name, kind ≠ .unknown name) : kind ∈ all := by
  cases kind with
  | unknown name => exact absurd rfl (known name)
  | _ => decide

theorem Kind.head_inj {left right : Kind} (known : left ∈ all) (known' : right ∈ all)
    (same : Bytes.ofString left.head = Bytes.ofString right.head) : left = right := by
  have apart : ∀ left ∈ all, ∀ right ∈ all,
      Bytes.ofString left.head = Bytes.ofString right.head → left = right := by
    decide +kernel
  exact apart left known right known' same

theorem Content.length_data {left right : Content α} (kinds : left.kind = right.kind) :
    left.data.length = right.data.length := by
  rw [data, data, ← kinds]
  cases left.kind <;> simp only [List.length_singleton]

theorem truth_inj {left right : Bool}
    (same : Bytes.ofString (Text.truth left) = Bytes.ofString (Text.truth right)) :
    left = right := by
  revert left right
  decide

theorem Content.essence_inj {left right : Content α} (proper : left.IsProper)
    (proper' : right.IsProper) (kinds : left.kind = right.kind) (same : left.data = right.data) :
    left.essence = right.essence := by
  have texts := proper.ascii.ofString_inj proper'.ascii
  rw [text, text, ← kinds] at texts
  rw [data, data, text, text, ← kinds] at same
  rw [essence, essence, ← kinds]
  cases kind : left.kind with
  | integer =>
      simp only [kind, List.cons.injEq, Datum.integer.injEq, and_true] at same
      have words := (Text.isAscii_word _).ofString_inj (Text.isAscii_word _) same
      simp only [Text.word_injective words]
  | boolean =>
      simp only [kind, List.cons.injEq, Datum.symbol.injEq, and_true] at same
      simp only [truth_inj same]
  | ident | bind | call | each | binary =>
      simp only [kind, List.cons.injEq, Datum.string.injEq, and_true] at same texts
      simp only [texts same]
  | _ => rfl

mutual

theorem WellKinded.essence_inj {left right : Node α} (wellKinded : left.WellKinded)
    (wellKinded' : right.WellKinded)
    (same : (left.datum fun _ => []) = right.datum fun _ => []) :
    left.essence = right.essence := by
  match left, right with
  | missing, missing => rfl
  | missing, node _ _ | node _ _, missing => simp [datum] at same
  | node content children, node content' children' =>
      obtain ⟨proper, below⟩ := wellKinded.proper
      obtain ⟨proper', below'⟩ := wellKinded'.proper
      simp only [datum, List.append_nil, Datum.list.injEq, List.cons.injEq,
        Datum.symbol.injEq] at same
      obtain ⟨heads, items⟩ := same
      have kinds := Kind.head_inj (Kind.mem_all proper.known) (Kind.mem_all proper'.known) heads
      obtain ⟨own, inside⟩ := List.append_inj items (Content.length_data kinds)
      rw [essence, essence, Content.essence_inj proper proper' kinds own, ← kinds]
      rw [← kinds] at inside below'
      cases leaf : content.kind.isLeaf with
      | true => rfl
      | false =>
          simp only [leaf, Bool.false_eq_true, if_false] at inside ⊢
          rw [essenceAll_inj (below leaf) (below' leaf) inside]

theorem essenceAll_inj {left right : List (Node α)} (wellKinded : ∀ tree ∈ left, tree.WellKinded)
    (wellKinded' : ∀ tree ∈ right, tree.WellKinded)
    (same : dataAll (fun _ => []) left = dataAll (fun _ => []) right) :
    essenceAll left = essenceAll right := by
  match left, right with
  | [], [] => rfl
  | [], _ :: _ | _ :: _, [] => simp [dataAll] at same
  | tree :: trees, tree' :: trees' =>
      rw [List.forall_mem_cons] at wellKinded wellKinded'
      obtain ⟨head, tail⟩ := List.cons.inj same
      rw [essenceAll, essenceAll, wellKinded.1.essence_inj wellKinded'.1 head,
        essenceAll_inj wellKinded.2 wellKinded'.2 tail]

end

/-- Two trees have one form if and only if they show the same. -/
theorem WellKinded.render_inj {left right : Node α} (wellKinded : left.WellKinded)
    (wellKinded' : right.WellKinded) :
    left.render = right.render ↔ left.essence = right.essence := by
  constructor
  · intro same
    have read := wellKinded.parse_render
    rw [same, wellKinded'.parse_render] at read
    exact wellKinded.essence_inj wellKinded' (Except.ok.inj read).symm
  · intro same
    rw [← render_essence left, same, render_essence right]

end Node

/-! ## Definitions -/

theorem Ty.isAscii_render (type : Ty) : Text.IsAscii type.render := by
  induction type with
  | array element induction =>
      have opening : Text.IsAscii "Array<" := by decide
      have closing : Text.IsAscii ">" := by decide
      simp only [Text.IsAscii, render, String.toList_append, List.mem_append] at *
      rintro character ((first | inner) | last)
      · exact opening character first
      · exact induction character inner
      · exact closing character last
  | _ =>
      rw [render]
      decide

def Parameter.datum (parameter : Parameter) : Datum :=
  .list [.symbol (Bytes.ofString "param"), .string (Bytes.ofString parameter.name),
    .string (Bytes.ofString parameter.type.render)]

def Definition.datum (name : String) (parameters : List Parameter) (body : Datum) : Datum :=
  .list [.symbol (Bytes.ofString "func"), .string (Bytes.ofString name),
    .list (parameters.map Parameter.datum), body]

theorem map_ofString {items : List α} {text : α → String} {datum : α → Datum}
    (same : ∀ item ∈ items, Bytes.ofString (text item) = (datum item).render) :
    (items.map text).map Bytes.ofString = (items.map datum).map Datum.render := by
  rw [List.map_map, List.map_map]
  exact List.map_congr_left same

theorem Parameter.ofString_render {parameter : Parameter} (ascii : Text.IsAscii parameter.name) :
    Bytes.ofString parameter.render = parameter.datum.render ∧ parameter.datum.Readable := by
  have type := parameter.type.isAscii_render
  have head : Datum.IsName (Bytes.ofString "param") :=
    Datum.isName_of_all (by decide) (by decide)
  refine ⟨?_, .list ?_⟩
  · rw [render, Text.ofString_form, List.map_cons, List.map_singleton, ascii.ofString_quoteMarks,
      type.ofString_quoteMarks, datum, Datum.render_list, List.map_cons, List.map_cons,
      List.map_singleton, Datum.render, Datum.render, Datum.render, Datum.Kind.write]
  · simp only [List.forall_mem_cons, List.not_mem_nil, IsEmpty.forall_iff, implies_true, and_true]
    exact ⟨.symbol (Datum.isSymbol_iff.mpr head), .string ascii.ofString_eq.2,
      .string type.ofString_eq.2⟩

/-- The form of a definition is the text of its datum. -/
theorem Definition.ofString_form {name : String} {parameters : List Parameter} {body : String}
    {datum : Datum} (ascii : Text.IsAscii name)
    (names : ∀ parameter ∈ parameters, Text.IsAscii parameter.name)
    (same : Bytes.ofString body = datum.render) (readable : datum.Readable) :
    Bytes.ofString (form name parameters body) = (Definition.datum name parameters datum).render ∧
      (Definition.datum name parameters datum).Readable := by
  have head : Datum.IsName (Bytes.ofString "func") := Datum.isName_of_all (by decide) (by decide)
  have opening : Bytes.ofString "(" = [40] := by decide
  have closing : Bytes.ofString ")" = [41] := by decide
  have inside : (parameters.map Parameter.render).map Bytes.ofString =
      (parameters.map Parameter.datum).map Datum.render :=
    map_ofString fun parameter member => (Parameter.ofString_render (names parameter member)).1
  refine ⟨?_, .list ?_⟩
  · rw [form, Text.ofString_form, List.map_cons, List.map_cons, List.map_singleton,
      ascii.ofString_quoteMarks, Bytes.ofString_append, Bytes.ofString_append,
      Bytes.ofString_intercalate, inside, same, opening, closing, Definition.datum,
      Datum.render_list, List.map_cons, List.map_cons, List.map_cons, List.map_singleton,
      Datum.render_list]
    rfl
  · simp only [List.forall_mem_cons, List.not_mem_nil, IsEmpty.forall_iff, implies_true, and_true]
    refine ⟨.symbol (Datum.isSymbol_iff.mpr head), .string ascii.ofString_eq.2, .list ?_, readable⟩
    intro item member
    obtain ⟨parameter, listed, rfl⟩ := List.mem_map.mp member
    exact (Parameter.ofString_render (names parameter listed)).2

namespace Node.Definition

/-- All names of a definition are ASCII, and its body can be shown. -/
structure WellKinded (definition : Definition α) : Prop where
  name : Text.IsAscii definition.name
  parameters : ∀ parameter ∈ definition.parameters, Text.IsAscii parameter.name
  body : definition.body.WellKinded

def datum (definition : Definition α) : Datum :=
  ExprLang.Definition.datum definition.name definition.parameters
    (definition.body.datum fun _ => [])

/-- The form of a definition is the text of its datum. -/
theorem WellKinded.ofString_render {definition : Definition α}
    (wellKinded : definition.WellKinded) :
    Bytes.ofString definition.render = definition.datum.render ∧ definition.datum.Readable :=
  ExprLang.Definition.ofString_form wellKinded.name wellKinded.parameters
    wellKinded.body.ofString_render (wellKinded.body.readable_datum (by simp))

theorem ofString_renderProgram {definitions : List (Definition α)}
    (wellKinded : ∀ definition ∈ definitions, definition.WellKinded) :
    ∃ datum : Datum, datum.Readable ∧
      Bytes.ofString (renderProgram definitions) = datum.render := by
  have head : Datum.IsName (Bytes.ofString "program") :=
    Datum.isName_of_all (by decide) (by decide)
  refine ⟨.list (.symbol (Bytes.ofString "program") :: definitions.map datum), .list ?_, ?_⟩
  · refine List.forall_mem_cons.mpr ⟨.symbol (Datum.isSymbol_iff.mpr head), fun item member => ?_⟩
    obtain ⟨definition, listed, rfl⟩ := List.mem_map.mp member
    exact (wellKinded definition listed).ofString_render.2
  · rw [renderProgram, Text.ofString_form, map_ofString fun definition member =>
      (wellKinded definition member).ofString_render.1, Datum.render_list, List.map_cons]
    rfl

end Node.Definition

end ExprLang
