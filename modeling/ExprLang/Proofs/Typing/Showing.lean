import ExprLang.Proofs.Syntax.Showing
import ExprLang.Typed.Tree

/-!
# Typed trees are shown with their types

A typed tree is read as the datum of its nodes with the type of each node at the end of its list.
Main statement: without these ends it is what the tree without types is read as, the ends spell the
types, and every tree that can be shown is read and written again without a change.
-/

namespace ExprLang

namespace Datum

mutual

def dropLasts : Datum → Datum
  | list items => list (dropLastsAll items).dropLast
  | datum => datum

def dropLastsAll : List Datum → List Datum
  | [] => []
  | item :: items => item.dropLasts :: dropLastsAll items

end

mutual

def lasts : Datum → List Datum
  | list items => items.getLast?.toList ++ lastsAll items
  | _ => []

def lastsAll : List Datum → List Datum
  | [] => []
  | item :: items => item.lasts ++ lastsAll items

end

theorem dropLastsAll_eq_map (items : List Datum) : dropLastsAll items = items.map dropLasts := by
  induction items with
  | nil => rfl
  | cons item items induction => rw [dropLastsAll, induction, List.map_cons]

theorem lastsAll_eq_flatMap (items : List Datum) : lastsAll items = items.flatMap lasts := by
  induction items with
  | nil => rfl
  | cons item items induction => rw [lastsAll, induction, List.flatMap_cons]

end Datum

/-! ## Typed trees as data -/

def Typing.datum (note : Typing) : Datum :=
  .symbol (Bytes.ofString note.type.render)

theorem Ty.IsProper.isName {type : Ty} (proper : type.IsProper) :
    Datum.IsName (Bytes.ofString type.render) := by
  have opening : Bytes.ofString "Array<" = [65, 114, 114, 97, 121, 60] := by decide
  have closing : Bytes.ofString ">" = [62] := by decide
  have word : (Bytes.ofString type.render).head?.any Datum.isLetter = true ∧
      (Bytes.ofString type.render).all Datum.isSymbolPart = true := by
    induction proper with
    | array proper induction =>
        rw [render, Bytes.ofString_append, Bytes.ofString_append, opening, closing]
        refine ⟨rfl, ?_⟩
        rw [List.all_append, List.all_append, induction.2]
        decide
    | _ => decide
  exact Datum.isName_of_all word.1 word.2

namespace Expr

theorem notes_eq (tree : Expr α) : tree.notes = tree.note :: tree.children.flatMap notes := by
  have all : ∀ trees : List (Expr α), notesAll trees = trees.flatMap notes := by
    intro trees
    induction trees with
    | nil => rfl
    | cons tree trees induction => rw [notesAll, induction, List.flatMap_cons]
  cases tree <;> simp [notes, note, children, all]

theorem renderTyped_eq {tree : Expr Typing} (clear : tree.IsClear) :
    tree.renderTyped = Text.form tree.kind.head ((Node.Content.ofExpr tree).attributes ++
      (tree.children.map renderTyped ++ [tree.note.type.render])) := by
  have all : ∀ trees : List (Expr Typing), renderTypedAll trees = trees.map renderTyped := by
    intro trees
    induction trees with
    | nil => rfl
    | cons tree trees induction => rw [renderTypedAll, induction, List.map_cons]
  have quoted := clear.spelled.quote_eq
  cases tree with
  | unknown note name children => exact absurd rfl (clear.known name)
  | _ =>
      simp_all [renderTyped, kind, Node.Kind.head, Node.Content.ofExpr, Node.Content.attributes,
        Node.Content.text, children, note]

theorem datum_ofExpr (label : α → List Datum) (tree : Expr α) :
    (Node.ofExpr tree).datum label = .list (.symbol (Bytes.ofString tree.kind.head) ::
      ((Node.Content.ofExpr tree).data ++
        (tree.children.map (fun child => (Node.ofExpr child).datum label) ++
          label tree.note))) := by
  rw [Node.ofExpr_eq, Node.datum, Node.dataAll_eq_map, List.map_map]
  cases tree <;> rfl

theorem ofString_renderTyped {tree : Expr Typing} (clear : tree.Every IsClear) :
    Bytes.ofString tree.renderTyped =
      ((Node.ofExpr tree).datum fun note => [note.datum]).render := by
  induction clear with
  | @intro tree root below induction =>
      rw [renderTyped_eq root, datum_ofExpr, Text.ofString_form, Datum.render_list, List.map_cons,
        List.map_append, List.map_append, List.map_append, List.map_append, map_ofString induction,
        Node.Content.map_attributes root.proper]
      rfl

/-! ## The types at the ends -/

theorem kind_erase (tree : Expr Typing) : tree.erase.kind = tree.kind := by
  cases tree <;> rfl

theorem children_erase (tree : Expr Typing) :
    tree.erase.children = tree.children.map erase := by
  have all : ∀ trees : List (Expr Typing), mapAll Typing.position trees = trees.map erase := by
    intro trees
    induction trees with
    | nil => rfl
    | cons tree trees induction => rw [mapAll, induction, List.map_cons]; rfl
  cases tree <;> simp [erase, map, children, all]

theorem data_erase (tree : Expr Typing) :
    (Node.Content.ofExpr tree.erase).data = (Node.Content.ofExpr tree).data ∧
      (Node.Content.ofExpr tree.erase).text = (Node.Content.ofExpr tree).text := by
  cases tree <;> exact ⟨rfl, rfl⟩

end Expr

theorem Node.Content.of_mem_data {content : Content α} {item : Datum}
    (member : item ∈ content.data) :
    item.dropLasts = item ∧ item.lasts = [] := by
  rw [data] at member
  split at member <;> simp only [List.mem_singleton, List.not_mem_nil] at member <;>
    subst member <;> exact ⟨rfl, rfl⟩

namespace Expr

theorem clear_of_erase {tree : Expr Typing} (clear : tree.erase.Every IsClear) :
    tree.Every IsClear := by
  generalize same : tree.erase = erased at clear
  induction clear generalizing tree with
  | @intro erased root below induction =>
      subst same
      refine .intro ⟨kind_erase tree ▸ root.known, (data_erase tree).2 ▸ root.spelled⟩ ?_
      intro child listed
      refine induction child.erase ?_ rfl
      rw [children_erase]
      exact List.mem_map_of_mem listed

theorem dropLasts_datum {tree : Expr Typing} (clear : tree.Every IsClear) :
    ((Node.ofExpr tree).datum fun note => [note.datum]).dropLasts =
      (Node.ofExpr tree.erase).datum fun _ => [] := by
  induction clear with
  | @intro tree root below induction =>
      have own : (Node.Content.ofExpr tree).data.map Datum.dropLasts =
          (Node.Content.ofExpr tree).data :=
        (List.map_congr_left fun item member =>
          (Node.Content.of_mem_data member).1).trans (List.map_id _)
      have inside : (tree.children.map fun child =>
          (Node.ofExpr child).datum fun note => [note.datum]).map Datum.dropLasts =
          tree.children.map fun child => (Node.ofExpr child.erase).datum fun _ => [] := by
        rw [List.map_map]
        exact List.map_congr_left induction
      rw [datum_ofExpr, Datum.dropLasts, Datum.dropLastsAll_eq_map, List.map_cons, List.map_append,
        List.map_append, own, inside, datum_ofExpr, kind_erase, children_erase, List.map_map,
        (data_erase tree).1, List.append_nil, List.map_singleton, ← List.append_assoc,
        ← List.cons_append, List.dropLast_concat]
      rfl

theorem lasts_datum {tree : Expr Typing} (clear : tree.Every IsClear) :
    ((Node.ofExpr tree).datum fun note => [note.datum]).lasts =
      tree.notes.map Typing.datum := by
  induction clear with
  | @intro tree root below induction =>
      have own : (Node.Content.ofExpr tree).data.flatMap Datum.lasts = [] :=
        List.flatMap_eq_nil_iff.mpr fun item member => (Node.Content.of_mem_data member).2
      have inside : (tree.children.map fun child =>
          (Node.ofExpr child).datum fun note => [note.datum]).flatMap Datum.lasts =
          (tree.children.flatMap notes).map Typing.datum := by
        rw [List.flatMap_map, List.map_flatMap]
        exact List.flatMap_congr induction
      rw [datum_ofExpr, Datum.lasts, Datum.lastsAll_eq_flatMap, List.flatMap_cons,
        List.flatMap_append, List.flatMap_append, own, inside, notes_eq, List.map_cons]
      simp [List.getLast?_cons, Datum.lasts, Typing.datum]

theorem notes_ofExpr {tree : Expr α} (clear : tree.Every IsClear) :
    (Node.ofExpr tree).notes = tree.notes := by
  have all : ∀ trees : List (Node α), Node.notesAll trees = trees.flatMap Node.notes := by
    intro trees
    induction trees with
    | nil => rfl
    | cons tree trees induction => rw [Node.notesAll, induction, List.flatMap_cons]
  induction clear with
  | @intro tree root below induction =>
      rw [Node.ofExpr_eq, Node.notes, all, List.flatMap_map, notes_eq,
        List.flatMap_congr induction]
      rfl

/-- The typed form of a tree is read as its form, with the type of each node at the end of the
list of that node. -/
def Fits (tree : Expr Position) (typed : Expr Typing) : Prop :=
  ∃ shown : Datum, Datum.parse (Bytes.ofString typed.renderTyped) = .ok shown ∧
    Datum.parse (Bytes.ofString tree.render) = .ok shown.dropLasts ∧
      shown.lasts = typed.notes.map Typing.datum

theorem fits_of_clear {tree : Expr Position} {typed : Expr Typing} (erase : typed.erase = tree)
    (clear : tree.Every IsClear) (proper : ∀ note ∈ typed.notes, note.type.IsProper) :
    Fits tree typed := by
  subst erase
  have clearTyped := clear_of_erase clear
  have labels : ∀ note ∈ (Node.ofExpr typed).notes, ∀ item ∈ [note.datum], item.Readable := by
    intro note member item inside
    rw [notes_ofExpr clearTyped] at member
    rw [List.mem_singleton.mp inside]
    exact .symbol (Datum.isSymbol_iff.mpr (proper note member).isName)
  have untyped := (wellKinded_ofExpr clear).parse_render
  rw [Node.render_ofExpr, ← dropLasts_datum clearTyped] at untyped
  refine ⟨_, ?_, untyped, lasts_datum clearTyped⟩
  rw [ofString_renderTyped clearTyped]
  exact Datum.parse_render ((wellKinded_ofExpr clearTyped).readable_datum labels)

theorem fits_of_elaborates {around : Surroundings} {tree : Expr Position} {typed : Expr Typing}
    {scope later : Scope} (elaborates : Elaborates around tree typed scope later)
    (clear : tree.Every IsClear) (table : around.known.All Ty.IsProper)
    (vars : Variables.All Ty.IsProper scope.find?) :
    Fits tree typed ∧ Variables.All Ty.IsProper later.find? :=
  ⟨fits_of_clear elaborates.erase clear
      (elaborates.annotated.notes_all Ty.closed_isProper table vars),
    (elaborates.types.all Ty.closed_isProper table vars).2⟩

end Expr

theorem Definition.fits_of_check {known : SignatureTable} {definition : Definition Position}
    {typed : TypedDefinition} (checked : definition.check known = .ok typed)
    (clear : Grammar.ClearDefinition definition) (table : known.All Ty.IsProper) :
    Expr.Fits definition.body typed.body ∧ typed.signature.result.IsProper := by
  have elaborates := elaborates_of_check checked
  have inputs : definition.inputs.All Ty.IsProper := by
    refine Variables.All.bindAll (fun _ _ found => by cases found) fun binding member => ?_
    obtain ⟨parameter, given, rfl⟩ := List.mem_map.mp member
    exact (clear.parameters parameter given).type
  refine ⟨Expr.fits_of_clear elaborates.body clear.body
    (elaborates.annotated.notes_all Ty.closed_isProper table inputs), ?_⟩
  rw [elaborates.gives]
  exact (elaborates.annotated.types.all Ty.closed_isProper table inputs).1

/-- Functions that are checked one after the other fit their definitions, and what is known of them
can be written. -/
theorem Definition.fits_of_checkAll {known : SignatureTable}
    {definitions : List (Definition Position)} {functions : List TypedDefinition}
    (checks : ChecksAll known definitions functions)
    (clear : ∀ definition ∈ definitions, Grammar.ClearDefinition definition)
    (table : known.All Ty.IsProper) :
    List.Forall₂ (fun definition function => Expr.Fits definition.body function.body)
      definitions functions ∧ (known.extend functions).All Ty.IsProper := by
  induction checks with
  | nil => exact ⟨.nil, by simpa using table⟩
  | cons head tail induction =>
      rw [List.forall_mem_cons] at clear
      obtain ⟨fits, result⟩ := fits_of_check head clear.1 table
      obtain ⟨others, reached⟩ := induction clear.2 (table.push result)
      exact ⟨.cons fits others, SignatureTable.push_extend ▸ reached⟩

theorem Grammar.ClearDefinition.wellKinded {definition : Definition Position}
    (clear : ClearDefinition definition) :
    (Node.Definition.ofDefinition definition).WellKinded where
  name := clear.name.isAscii
  parameters parameter member := (clear.parameters parameter member).name.isAscii
  body := Expr.wellKinded_ofExpr clear.body

/-- A text is read as a datum whose text it is. -/
def Datum.ReadsBack (text : String) : Prop :=
  ∃ datum : Datum, parse (Bytes.ofString text) = .ok datum ∧
    datum.render = Bytes.ofString text

theorem Datum.readsBack_of_readable {text : String} {datum : Datum} (readable : datum.Readable)
    (same : Bytes.ofString text = datum.render) : ReadsBack text :=
  ⟨datum, by rw [same, Datum.parse_render readable], same.symm⟩

/-- The form of every tree from outside is a datum and is read back, if what it shows is of known
kinds and ASCII, and so are the forms of definitions and programs made of such trees. Two such
trees have one form only if they differ in nothing but positions and what the kinds of their nodes
have no use for. All that the parser gives is of this sort. What the checker then makes of a tree
is written as the same datum with the type of each node at the end of the list of that node, where
all types that are known are made of integers, floats, truth values and arrays: so it is at the
start, and so it stays. -/
theorem Datum.forms_are_read_back :
    (∀ tree : Node Position, tree.WellKinded → ReadsBack tree.render) ∧
    (∀ definition : Node.Definition Position, definition.WellKinded →
      ReadsBack definition.render) ∧
    (∀ definitions : List (Node.Definition Position),
      (∀ definition ∈ definitions, definition.WellKinded) →
        ReadsBack (Node.Definition.renderProgram definitions)) ∧
    (∀ left right : Node Position, left.WellKinded → right.WellKinded →
      (left.render = right.render ↔ left.essence = right.essence)) ∧
    (∀ source tree, parseExpression source = .ok tree →
      (Node.ofExpr tree).WellKinded ∧ (Node.ofExpr tree).render = tree.render ∧
        ∀ known scope typed later, tree.check known scope = (.ok typed, later) →
          known.All Ty.IsProper → Variables.All Ty.IsProper scope.find? →
            tree.Fits typed ∧ Variables.All Ty.IsProper later.find?) ∧
    (∀ source definitions, parseProgram source = .ok definitions →
      (∀ definition ∈ definitions, (Node.Definition.ofDefinition definition).WellKinded ∧
        (Node.Definition.ofDefinition definition).render = definition.render) ∧
      Node.Definition.renderProgram (definitions.map Node.Definition.ofDefinition) =
        Definition.renderProgram definitions ∧
      ∀ known functions final, Definition.checkAll known definitions = (.ok functions, final) →
        known.All Ty.IsProper →
          List.Forall₂ (fun definition function => definition.body.Fits function.body)
            definitions functions ∧ final.All Ty.IsProper) ∧
    SignatureTable.standard.All Ty.IsProper ∧ Variables.All Ty.IsProper Scope.empty.find? := by
  refine ⟨fun tree wellKinded => ?_, fun definition wellKinded => ?_,
    fun definitions wellKinded => ?_, fun left right wellKinded wellKinded' => ?_,
    fun source tree parsed => ?_, fun source definitions parsed => ?_,
    SignatureTable.all_standard .int, fun name type found => by cases found⟩
  · exact readsBack_of_readable (wellKinded.readable_datum (by simp)) wellKinded.ofString_render
  · obtain ⟨same, readable⟩ := wellKinded.ofString_render
    exact readsBack_of_readable readable same
  · obtain ⟨datum, readable, same⟩ := Node.Definition.ofString_renderProgram wellKinded
    exact readsBack_of_readable readable same
  · exact wellKinded.render_inj wellKinded'
  · have clear := clear_of_parseExpression parsed
    refine ⟨Expr.wellKinded_ofExpr clear, Node.render_ofExpr tree, ?_⟩
    intro known scope typed later checked table vars
    exact Expr.fits_of_elaborates (Expr.infer_sound tree checked) clear table vars
  · have clear := clear_of_parseProgram parsed
    refine ⟨fun definition member => ⟨(clear definition member).wellKinded,
      Node.Definition.render_ofDefinition definition⟩,
      Node.Definition.renderProgram_ofDefinition definitions, ?_⟩
    intro known functions final checked table
    obtain ⟨checks, rfl⟩ := Definition.checkAll_eq_ok_iff.mp checked
    exact Definition.fits_of_checkAll checks clear table

/-- A type is one symbol, and a sign belongs to its numeral. -/
example :
    Datum.parse (Bytes.ofString "(array (integer -1 Int) Array<Int>)") =
      .ok (.list [.symbol (Bytes.ofString "array"), .list [.symbol (Bytes.ofString "integer"),
        .integer (Bytes.ofString "-1"), .symbol (Bytes.ofString "Int")],
        .symbol (Bytes.ofString "Array<Int>")]) := by
  cbv

end ExprLang
