import ExprLang.TestCase
import Mathlib.Data.List.Forall2

/-!
# The format of test cases

A document is a start that has no test cases and one part for each heading that begins one. Its
test cases are put together while the elements pass by one after the other: a draft holds what has
been read of a part, and whether there has been a source is told from whether its text is empty.
Main statement: which documents describe test cases, and which ones they are. A source or an input
that is empty does not count, so that another one may follow it.
-/

namespace ExprLang.TestCase

open Document

/-! ## Parts -/

structure Block where
  language : Bytes
  content : Bytes
  line : Nat
deriving DecidableEq, Repr

def block? : Element → Option Block
  | .heading _ _ => none
  | .fence language content line =>
    if language.isEmpty then none else some ⟨language, content, line⟩

def blocks (elements : Document) : List Block :=
  elements.filterMap block?

/-- A heading that begins a test case, and what stands between it and the next one. -/
structure Part where
  name : Bytes
  line : Nat
  body : Document
deriving DecidableEq, Repr

def begins? : Element → Option (Bytes × Nat)
  | .heading text line => (nameOfHeading? text).map fun name => (name, line)
  | .fence _ _ _ => none

/-- What stands in front of the first heading that begins a test case, and the parts behind. -/
def divide : Document → Document × List Part
  | [] => ([], [])
  | element :: elements =>
    match begins? element with
    | some (name, line) => ([], ⟨name, line, (divide elements).1⟩ :: (divide elements).2)
    | none => (element :: (divide elements).1, (divide elements).2)

/-! ## The roles of blocks -/

def readDatum (subject : Subject) (content : Bytes) :
    Except DatumError (Option Datum) :=
  if subject.isDatum then (Datum.parse content).map some else .ok none

namespace Block

def role? (block : Block) : Option BlockRole :=
  BlockRole.ofLanguage? block.language

def source? (block : Block) : Option (SourceForm × Bytes) :=
  match block.role? with
  | some (.source form) => some (form, block.content.trimNewlines)
  | _ => none

def input? (block : Block) : Option Bytes :=
  match block.role? with
  | some .input => some block.content
  | _ => none

def isExpectation (block : Block) : Bool :=
  match block.role? with
  | some (.expectation _) => true
  | _ => false

structure Holds (block : Block) (expectation : Expectation) : Prop where
  role : block.role? = some (.expectation expectation.subject)
  content : expectation.content = block.content.trimNewlines
  line : expectation.line = block.line
  datum : readDatum expectation.subject expectation.content = .ok expectation.datum

end Block

namespace Part

def sources (part : Part) : List (SourceForm × Bytes) :=
  (blocks part.body).filterMap Block.source?

def inputs (part : Part) : List Bytes :=
  (blocks part.body).filterMap Block.input?

def expectations (part : Part) : List Block :=
  (blocks part.body).filter Block.isExpectation

/-- What a part and its test case have in common whatever counts as a source or an input: every
language in the part is known, and there are expectations, all of which can be read. -/
structure Fits (part : Part) (test : TestCase) : Prop where
  known : ∀ block ∈ blocks part.body, block.role?.isSome = true
  name : test.name = part.name
  line : test.line = part.line
  expectations : List.Forall₂ Block.Holds part.expectations test.expectations
  some : part.expectations ≠ []

/-- A part describes a test case: its last source is not empty but those in front of it are, and its
last input is the input and those in front of it are empty. -/
structure Describes (part : Part) (test : TestCase) : Prop extends Fits part test where
  source : ∃ front, part.sources = front ++ [(test.form, test.source)] ∧
    (∀ other ∈ front, other.2 = []) ∧ test.source ≠ []
  input : part.inputs = [] ∧ test.input = [] ∨
    ∃ front, part.inputs = front ++ [test.input] ∧ ∀ other ∈ front, other = []

/-- A part has the form that is asked for: it has exactly one source and at most one input. -/
structure Specifies (part : Part) (test : TestCase) : Prop extends Fits part test where
  source : part.sources = [(test.form, test.source)]
  input : part.inputs = [] ∧ test.input = [] ∨ part.inputs = [test.input]

/-- No source and no input of a part is empty. -/
structure Full (part : Part) : Prop where
  sources : ∀ source ∈ part.sources, source.2 ≠ []
  inputs : ∀ input ∈ part.inputs, input ≠ []

end Part

/-! ## Places that are filled once -/

section Places

variable {α β : Type} {offer : β → Option α}

/-- A place takes what one item after the other has to offer as long as nothing is in it; the items
lead from its first to its last content. -/
def Filled (offer : β → Option α) : Option α → List β → Option α → Prop
  | place, [], last => place = last
  | none, item :: items, last => Filled offer (offer item) items last
  | some _, _ :: _, _ => False

theorem filled_some_iff {content : α} {items : List β} {last : Option α} :
    Filled offer (some content) items last ↔ items = [] ∧ some content = last := by
  cases items with
  | nil => exact ⟨fun same => ⟨rfl, same⟩, And.right⟩
  | cons => exact ⟨False.elim, fun empty => nomatch empty.1⟩

/-- What is left in an empty place is the offer of the last item, and those in front of it had
nothing to offer. -/
theorem filled_none_iff {items : List β} {last : Option α} :
    Filled offer none items last ↔ items = [] ∧ none = last ∨
      ∃ front item, items = front ++ [item] ∧ offer item = last ∧
        ∀ other ∈ front, offer other = none := by
  induction items with
  | nil => simp [Filled]
  | cons first items induction =>
      have split : (∃ front item, first :: items = front ++ [item] ∧ offer item = last ∧
            ∀ other ∈ front, offer other = none) ↔
          items = [] ∧ offer first = last ∨ offer first = none ∧
            ∃ front item, items = front ++ [item] ∧ offer item = last ∧
              ∀ other ∈ front, offer other = none := by
        constructor
        · intro split
          rcases split with ⟨front, item, split, offered, nothing⟩
          cases front with
          | nil =>
              cases split
              exact .inl ⟨rfl, offered⟩
          | cons other front =>
              cases split
              exact .inr ⟨nothing _ (.head _), front, item, rfl, offered,
                fun other member => nothing other (.tail _ member)⟩
        · intro split
          rcases split with ⟨rfl, offered⟩ | ⟨none, front, item, rfl, offered, nothing⟩
          · exact ⟨[], first, rfl, offered, List.forall_mem_nil _⟩
          · exact ⟨first :: front, item, rfl, offered, by simpa [none] using nothing⟩
      rw [Filled, split]
      cases offered : offer first with
      | none => simp [induction]
      | some content => simp [filled_some_iff]

end Places

theorem nonempty?_eq_none_iff {text : Bytes} : nonempty? text = none ↔ text = [] := by
  cases text <;> simp [nonempty?]

theorem nonempty?_eq_some_iff {text other : Bytes} :
    nonempty? text = some other ↔ text = other ∧ other ≠ [] := by
  cases text with
  | nil => simp [nonempty?]
  | cons byte rest =>
      rw [nonempty?, if_neg (by simp), Option.some_inj]
      exact ⟨fun same => ⟨same, same ▸ List.cons_ne_nil _ _⟩, And.left⟩

/-! ## Drafts -/

def offerSource (source : SourceForm × Bytes) : Option (SourceForm × Bytes) :=
  (nonempty? source.2).map fun text => (source.1, text)

/-- The blocks of a part lead from one draft to another. -/
@[mk_iff]
structure Leads (draft : Draft) (blocks : List Block) (final : Draft) : Prop where
  known : ∀ block ∈ blocks, block.role?.isSome = true
  name : final.name = draft.name
  line : final.line = draft.line
  source : Filled offerSource draft.source (blocks.filterMap Block.source?) final.source
  input : Filled nonempty? draft.input (blocks.filterMap Block.input?) final.input
  expectations : ∃ more, final.expectations = draft.expectations ++ more ∧
    List.Forall₂ Block.Holds (blocks.filter Block.isExpectation) more

theorem leads_nil_iff {draft final : Draft} : Leads draft [] final ↔ draft = final := by
  constructor
  · intro leads
    rcases leads with ⟨_, name, line, source, input, more, expectations, none⟩
    cases none
    cases draft
    cases final
    simp_all [Filled]
  · intro same
    cases same
    exact ⟨by simp, rfl, rfl, rfl, rfl, [], by simp, .nil⟩

theorem expect_eq_ok_iff {draft next : Draft} {block : Block} {subject : Subject}
    (role : block.role? = some (.expectation subject)) :
    draft.expect subject block.content block.line = .ok next ↔
      ∃ expectation, block.Holds expectation ∧
        next = { draft with expectations := draft.expectations ++ [expectation] } := by
  have parts : ∀ expectation, block.Holds expectation ↔
      ∃ datum, readDatum subject block.content.trimNewlines = .ok datum ∧
        expectation = ⟨subject, block.content.trimNewlines, datum, block.line⟩ := by
    intro expectation
    constructor
    · intro held
      rcases expectation with ⟨other, content, datum, line⟩
      rcases held with ⟨found, rfl, rfl, read⟩
      cases role.symm.trans found
      exact ⟨datum, read, rfl⟩
    · intro held
      rcases held with ⟨datum, read, rfl⟩
      exact ⟨role, rfl, rfl, read⟩
  simp only [parts, Draft.expect, readDatum]
  cases subject.isDatum with
  | false => simp [pure, Except.pure, bind, Except.bind, eq_comm]
  | true =>
      cases Datum.parse block.content.trimNewlines <;>
        simp [pure, Except.pure, bind, Except.bind, Except.map, throw, throwThe,
          MonadExceptOf.throw, eq_comm]

theorem leads_cons_iff {draft final : Draft} {block : Block} {blocks : List Block} :
    Leads draft (block :: blocks) final ↔
      ∃ next, draft.add block.language block.content block.line = .ok next ∧
        Leads next blocks final := by
  cases role : block.role? with
  | none =>
      have unknown : ∀ next, draft.add block.language block.content block.line ≠ .ok next := by
        rw [Draft.add, show BlockRole.ofLanguage? block.language = none from role]
        exact fun _ => nofun
      simp [leads_iff, role, unknown]
  | some found =>
      rw [Draft.add, show BlockRole.ofLanguage? block.language = some found from role]
      cases found with
      | source form =>
          cases place : draft.source <;>
            simp [leads_iff, place, role, Filled, Block.source?, Block.input?,
              Block.isExpectation, offerSource]
      | input =>
          cases place : draft.input <;>
            simp [leads_iff, place, role, Filled, Block.source?, Block.input?,
              Block.isExpectation]
      | expectation subject =>
          simp only [expect_eq_ok_iff role]
          simp only [leads_iff, List.mem_cons, forall_eq_or_imp, role, Option.isSome_some,
            true_and, Block.source?, List.filterMap_cons_none, Block.input?, Block.isExpectation,
            List.filter_cons_of_pos, List.forall₂_cons_left_iff, exists_and_left, ↓existsAndEq,
            and_true, List.append_assoc, List.cons_append, List.nil_append]
          constructor
          · intro leads
            rcases leads with
              ⟨known, name, line, source, input, expectation, more, all, held, others⟩
            exact ⟨expectation, held, known, name, line, source, input, more, all, others⟩
          · intro leads
            rcases leads with
              ⟨expectation, held, known, name, line, source, input, more, all, others⟩
            exact ⟨known, name, line, source, input, expectation, more, all, held, others⟩

theorem finish_eq_ok_iff {draft : Draft} {test : TestCase} :
    draft.finish = .ok test ↔
      draft.source = some (test.form, test.source) ∧ draft.expectations ≠ [] ∧
        test.name = draft.name ∧ test.line = draft.line ∧ test.input = draft.input.getD [] ∧
        test.expectations = draft.expectations := by
  rcases test with ⟨name, form, text, input, expectations, line⟩
  rw [Draft.finish]
  cases draft.source with
  | none => simp
  | some found =>
      rcases found with ⟨form, text⟩
      cases empty : draft.expectations <;> simp [eq_comm, and_comm, and_assoc, and_left_comm]

def Completes (draft : Draft) (blocks : List Block) (test : TestCase) : Prop :=
  ∃ final, Leads draft blocks final ∧ final.finish = .ok test

theorem completes_nil_iff {draft : Draft} {test : TestCase} :
    Completes draft [] test ↔ draft.finish = .ok test := by
  simp only [Completes, leads_nil_iff, exists_eq_left']

theorem completes_cons_iff {draft : Draft} {block : Block} {blocks : List Block}
    {test : TestCase} :
    Completes draft (block :: blocks) test ↔
      ∃ next, draft.add block.language block.content block.line = .ok next ∧
        Completes next blocks test := by
  simp only [Completes, leads_cons_iff]
  constructor
  · intro completes
    rcases completes with ⟨final, ⟨next, added, leads⟩, finished⟩
    exact ⟨next, added, final, leads, finished⟩
  · intro completes
    rcases completes with ⟨next, added, final, leads, finished⟩
    exact ⟨final, ⟨next, added, leads⟩, finished⟩

theorem filled_source_iff {sources : List (SourceForm × Bytes)} {form : SourceForm}
    {text : Bytes} :
    Filled offerSource none sources (some (form, text)) ↔
      ∃ front, sources = front ++ [(form, text)] ∧ (∀ other ∈ front, other.2 = []) ∧
        text ≠ [] := by
  have offered : ∀ source : SourceForm × Bytes,
      offerSource source = some (form, text) ↔ source = (form, text) ∧ text ≠ [] := by
    intro source
    rcases source with ⟨other, content⟩
    rw [offerSource, Option.map_eq_some_iff]
    simp only [nonempty?_eq_some_iff]
    constructor
    · intro offered
      rcases offered with ⟨_, ⟨rfl, nonempty⟩, same⟩
      cases same
      exact ⟨rfl, nonempty⟩
    · intro same
      rcases same with ⟨same, nonempty⟩
      cases same
      exact ⟨_, ⟨rfl, nonempty⟩, rfl⟩
  have nothing : ∀ source : SourceForm × Bytes, offerSource source = none ↔ source.2 = [] := by
    intro source
    rw [offerSource, Option.map_eq_none_iff, nonempty?_eq_none_iff]
  simp only [filled_none_iff, offered, nothing]
  constructor
  · intro filled
    rcases filled with ⟨_, some⟩ | ⟨front, item, split, ⟨rfl, nonempty⟩, empty⟩
    · cases some
    · exact ⟨front, split, empty, nonempty⟩
  · intro split
    rcases split with ⟨front, split, empty, nonempty⟩
    exact .inr ⟨front, _, split, ⟨rfl, nonempty⟩, empty⟩

theorem filled_input_iff {inputs : List Bytes} {input : Bytes} :
    (∃ last, Filled nonempty? none inputs last ∧ input = last.getD []) ↔
      inputs = [] ∧ input = [] ∨
        ∃ front, inputs = front ++ [input] ∧ ∀ other ∈ front, other = [] := by
  have offered : ∀ text : Bytes, (nonempty? text).getD [] = text := by
    intro text
    cases text <;> rfl
  simp only [filled_none_iff, nonempty?_eq_none_iff]
  constructor
  · intro filled
    rcases filled with ⟨last, ⟨none, rfl⟩ | ⟨front, text, split, rfl, empty⟩, rfl⟩
    · exact .inl ⟨none, rfl⟩
    · rw [offered]
      exact .inr ⟨front, split, empty⟩
  · intro split
    rcases split with ⟨none, rfl⟩ | ⟨front, split, empty⟩
    · exact ⟨_, .inl ⟨none, rfl⟩, rfl⟩
    · exact ⟨_, .inr ⟨front, input, split, rfl, empty⟩, (offered input).symm⟩

theorem completes_start_iff {part : Part} {test : TestCase} :
    Completes (.start part.name part.line) (blocks part.body) test ↔ part.Describes test := by
  constructor
  · intro completes
    rcases completes with ⟨final, leads, finished⟩
    rcases finish_eq_ok_iff.mp finished with ⟨source, some, name, line, input, expectations⟩
    rcases leads.expectations with ⟨more, all, held⟩
    have same : test.expectations = more := expectations.trans all
    exact
      { known := leads.known
        name := name.trans leads.name
        line := line.trans leads.line
        source := filled_source_iff.mp (source ▸ leads.source)
        input := filled_input_iff.mp ⟨final.input, leads.input, input⟩
        expectations := same ▸ held
        some := by
          intro none
          rw [← Part.expectations, none] at held
          cases held
          exact some all }
  · intro describes
    rcases filled_input_iff.mpr describes.input with ⟨input, filled, same⟩
    apply Exists.intro ⟨part.name, part.line, some (test.form, test.source), input,
      test.expectations⟩
    apply And.intro
    · exact
        { known := describes.known
          name := rfl
          line := rfl
          source := filled_source_iff.mpr describes.source
          input := filled
          expectations := ⟨test.expectations, rfl, describes.expectations⟩ }
    · apply finish_eq_ok_iff.mpr
      have nonempty : test.expectations ≠ [] := by
        intro none
        have held := describes.expectations
        rw [none, List.forall₂_nil_right_iff] at held
        exact describes.some held
      exact ⟨rfl, nonempty, describes.name, describes.line, same, rfl⟩

/-! ## Elements -/

section Elements

variable {draft : Option Draft} {element : Element} {elements : Document}

theorem readElement_begins {name : Bytes} {line : Nat}
    (begins : begins? element = some (name, line)) :
    readElement draft element =
      (finishAll draft).map fun tests => (some (.start name line), tests) := by
  cases element with
  | heading text number =>
      rw [begins?, Option.map_eq_some_iff] at begins
      rcases begins with ⟨found, named, same⟩
      cases same
      rw [readElement, named]
  | fence => cases begins

theorem readElement_other (goesOn : begins? element = none) (none : block? element = none) :
    readElement draft element = .ok (draft, []) := by
  cases element with
  | heading text line =>
      rw [begins?, Option.map_eq_none_iff] at goesOn
      rw [readElement, goesOn]
  | fence language content line =>
      rw [block?, ite_eq_left_iff] at none
      have unnamed : language.isEmpty = true := by simpa using none
      simp [readElement.eq_def, unnamed]

theorem readElement_block {block : Block} (found : block? element = some block) :
    readElement draft element = match draft with
      | none => .error (.outside block.line block.language block.role?.isSome)
      | some draft => (draft.add block.language block.content block.line).map
          fun draft => (some draft, []) := by
  cases element with
  | heading => cases found
  | fence language content line =>
      rw [block?] at found
      split at found
      · cases found
      · rename_i named
        cases found
        rw [readElement.eq_def]
        simp only [if_neg named]
        rfl

theorem readElements_cons_iff {cases : List TestCase} :
    readElements draft (element :: elements) = .ok cases ↔
      ∃ next tests others, readElement draft element = .ok (next, tests) ∧
        readElements next elements = .ok others ∧ cases = tests ++ others := by
  rw [readElements]
  cases readElement draft element with
  | error => simp
  | ok found =>
      rcases found with ⟨next, tests⟩
      cases rest : readElements next elements with
      | error => simp [rest, Except.map]
      | ok others => simp [rest, Except.map, eq_comm (b := cases)]

theorem divide_begins {name : Bytes} {line : Nat} (begins : begins? element = some (name, line)) :
    divide (element :: elements) =
      ([], ⟨name, line, (divide elements).1⟩ :: (divide elements).2) := by
  rw [divide, begins]

theorem divide_other (goesOn : begins? element = none) :
    divide (element :: elements) = (element :: (divide elements).1, (divide elements).2) := by
  rw [divide, goesOn]

end Elements

theorem describes_cons_iff {part : Part} {parts : List Part} {cases : List TestCase} :
    List.Forall₂ Part.Describes (part :: parts) cases ↔
      ∃ test others, Completes (.start part.name part.line) (blocks part.body) test ∧
        List.Forall₂ Part.Describes parts others ∧ cases = test :: others := by
  rw [List.forall₂_cons_left_iff]
  simp only [completes_start_iff]

theorem readElements_some_iff {draft : Draft} {document : Document} {cases : List TestCase} :
    readElements (some draft) document = .ok cases ↔
      ∃ test others, Completes draft (blocks (divide document).1) test ∧
        List.Forall₂ Part.Describes (divide document).2 others ∧ cases = test :: others := by
  induction document generalizing draft cases with
  | nil =>
      rw [show divide [] = ([], []) from rfl, blocks, List.filterMap_nil]
      simp only [completes_nil_iff, List.forall₂_nil_left_iff]
      rw [readElements, finishAll]
      cases draft.finish <;> simp [Except.map, Except.mapError, eq_comm (b := cases)]
  | cons element elements induction =>
      rw [readElements_cons_iff]
      cases begins : begins? element with
      | some found =>
          rcases found with ⟨name, line⟩
          rw [divide_begins begins, readElement_begins begins, blocks, List.filterMap_nil]
          simp only [completes_nil_iff, describes_cons_iff, ← induction, finishAll]
          cases draft.finish <;> simp [Except.map]
      | none =>
          rw [divide_other begins]
          cases found : block? element with
          | none =>
              rw [readElement_other begins found, blocks, List.filterMap_cons_none found,
                ← blocks, ← induction]
              simp [eq_comm (a := cases)]
          | some block =>
              rw [readElement_block found, blocks, List.filterMap_cons_some found, ← blocks]
              simp only [completes_cons_iff]
              cases draft.add block.language block.content block.line <;>
                simp [Except.map, induction]

theorem readElements_none_iff {document : Document} {cases : List TestCase} :
    readElements none document = .ok cases ↔
      blocks (divide document).1 = [] ∧
        List.Forall₂ Part.Describes (divide document).2 cases := by
  induction document generalizing cases with
  | nil => simp [readElements, finishAll, blocks, divide, Except.mapError, eq_comm]
  | cons element elements induction =>
      rw [readElements_cons_iff]
      cases begins : begins? element with
      | some found =>
          rcases found with ⟨name, line⟩
          rw [divide_begins begins, readElement_begins begins, blocks, List.filterMap_nil]
          simp only [describes_cons_iff, ← readElements_some_iff, finishAll]
          simp [Except.map]
      | none =>
          rw [divide_other begins]
          cases found : block? element with
          | none =>
              rw [readElement_other begins found, blocks, List.filterMap_cons_none found,
                ← blocks, ← induction]
              simp [eq_comm (a := cases)]
          | some block =>
              rw [readElement_block found, blocks, List.filterMap_cons_some found, ← blocks]
              simp

/-! ## Documents -/

theorem eq_singleton_of_front {α : Type} {items front : List α} {last : α} {bad : α → Prop}
    (split : items = front ++ [last]) (others : ∀ other ∈ front, bad other)
    (good : ∀ item ∈ items, ¬ bad item) : items = [last] := by
  cases front with
  | nil => exact split
  | cons other front =>
      cases split
      cases good other (.head _) (others other (.head _))

theorem Part.Full.describes_iff {part : Part} (full : part.Full) {test : TestCase} :
    part.Describes test ↔ part.Specifies test := by
  constructor
  · intro describes
    rcases describes with ⟨fits, ⟨front, split, empty, _⟩, input⟩
    apply Specifies.mk fits (eq_singleton_of_front split empty full.sources)
    rcases input with none | ⟨front, split, empty⟩
    · exact .inl none
    · exact .inr (eq_singleton_of_front split empty full.inputs)
  · intro specifies
    rcases specifies with ⟨fits, source, input⟩
    have nonempty : test.source ≠ [] := by
      apply full.sources (test.form, test.source)
      rw [source]
      exact .head _
    apply Describes.mk fits ⟨[], source, nofun, nonempty⟩
    rcases input with none | single
    · exact .inl none
    · exact .inr ⟨[], single, nofun⟩

/-- A document gives test cases if and only if no code block with a language stands in front of its
first part and each part describes a test case, and then it gives those, in order. Where no source
and no input of a part is empty, each of these parts has exactly one source and at most one
input. -/
theorem documents_describe_tests (document : Document) (cases : List TestCase) :
    (ofDocument document = .ok cases ↔
      blocks (divide document).1 = [] ∧
        List.Forall₂ Part.Describes (divide document).2 cases) ∧
    ((∀ part ∈ (divide document).2, part.Full) →
      (ofDocument document = .ok cases ↔
        blocks (divide document).1 = [] ∧
          List.Forall₂ Part.Specifies (divide document).2 cases)) := by
  have given := @readElements_none_iff document cases
  apply And.intro given
  intro full
  have both : ∀ relation : Part → TestCase → Prop,
      List.Forall₂ relation (divide document).2 cases ↔
        List.Forall₂ (fun part test => part.Full ∧ relation part test) (divide document).2
          cases := by
    intro relation
    rw [List.forall₂_and_left, and_iff_right full]
  have same : ∀ (part : Part) (test : TestCase),
      part.Full ∧ part.Describes test ↔ part.Full ∧ part.Specifies test :=
    fun part test => and_congr_right fun full => full.describes_iff
  rw [both Part.Describes] at given
  simp only [same] at given
  rw [both Part.Specifies]
  exact given

/-- An empty source does not count: another one may follow it, and the document is accepted. -/
theorem second_source_behind_empty :
    let document : Document :=
      [.heading (Bytes.ofString "Test: a") 1, .fence (Bytes.ofString "wayto-expr") [] 1,
        .fence (Bytes.ofString "wayto-expr") (Bytes.ofString "1\n") 7,
        .fence (Bytes.ofString "ast") (Bytes.ofString "1\n") 11]
    (ofDocument document).isOk = true ∧
      (divide document).2.map (fun part => part.sources.length) = [2] := by
  decide +kernel

end ExprLang.TestCase
