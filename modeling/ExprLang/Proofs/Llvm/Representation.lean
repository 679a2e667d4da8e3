import ExprLang.Proofs.Llvm.Execution
import ExprLang.Proofs.Llvm.Translation
import ExprLang.Proofs.Lowering.Scalars

/-!
# Registers and names

A register with a word belongs to a value, and so does an operand of the code that is written. Main
statements: what is written for an instruction that computes a word gives the operand of its result
a content that represents the word, and the phis of a block are given what represents the words
that its parameters are given.
-/

namespace ExprLang

/-- An operation divides the smallest word by minus one: the result is larger than all words. -/
def Ssa.Operation.overflows (registers : Array Int64) : Operation → Bool
  | .arithmetic .divide left right =>
    registers[left.index]? = some Int64.minValue ∧ registers[right.index]? = some (-1)
  | _ => false

namespace Llvm

open Ssa (Value Label)

/-! ## What words are represented by -/

def Content.register : Content → Int64
  | bit truth => if truth then 1 else 0
  | word value => value

/-- The operand of a value represents a word: it is the word itself, or the name of the value stands
for something with this word. -/
inductive Represents (operands : Operands) (contents : Contents) (value : Value) : Int64 → Prop
  | constant {word : Int64} (known : operands.lookup value = some (.constant .word word)) :
      Represents operands contents value word
  | content {content : Content}
      (known : operands.lookup value = some (.result (.value value) content.width))
      (holds : contents (.value value) = some content) :
      Represents operands contents value content.register

def Mirrors (operands : Operands) (registers : Array Int64) (contents : Contents) (value : Value) :
    Prop :=
  ∃ word, registers[value.index]? = some word ∧ Represents operands contents value word

section Represents

variable {operands : Operands} {registers later : Array Int64} {contents after : Contents}
  {value : Value} {word : Int64} {operand : Operand}

theorem Represents.content? (represents : Represents operands contents value word)
    (known : operands.lookup value = some operand) :
    ∃ content, operand.content? contents = some content ∧ content.width = operand.width ∧
      content.register = word := by
  cases represents with
  | constant found =>
      cases found.symm.trans known
      exact ⟨.word word, rfl, rfl, rfl⟩
  | @content content found holds =>
      cases found.symm.trans known
      exact ⟨content, by simp [Operand.content?, holds], rfl, rfl⟩

theorem Represents.of_same (represents : Represents operands contents value word)
    (same : after (.value value) = contents (.value value)) :
    Represents operands after value word := by
  cases represents with
  | constant known => exact .constant known
  | content known holds => exact .content known (same.trans holds)

theorem Mirrors.of_same (mirrors : Mirrors operands registers contents value)
    (sameRegister : later[value.index]? = registers[value.index]?)
    (sameName : after (.value value) = contents (.value value)) :
    Mirrors operands later after value := by
  obtain ⟨word, found, represents⟩ := mirrors
  exact ⟨word, sameRegister.trans found, represents.of_same sameName⟩

theorem Mirrors.register (mirrors : Mirrors operands registers contents value) :
    ∃ word, registers[value.index]? = some word := by
  obtain ⟨word, found, _⟩ := mirrors
  exact ⟨word, found⟩

theorem Mirrors.wide (mirrors : Mirrors operands registers contents value)
    (found : registers[value.index]? = some word) (known : operands.lookup value = some operand)
    (wide : operand.width = .word) : operand.content? contents = some (.word word) := by
  obtain ⟨other, foundThere, represents⟩ := mirrors
  cases found.symm.trans foundThere
  obtain ⟨content, holds, width, same⟩ := represents.content? known
  cases content with
  | bit truth => cases width.trans wide
  | word word =>
      cases same
      exact holds

theorem Mirrors.word? (mirrors : Mirrors operands registers contents value)
    (found : registers[value.index]? = some word) (known : operands.lookup value = some operand)
    (wide : operand.width = .word) : operand.word? contents = some word := by
  rw [Operand.word?, mirrors.wide found known wide]
  rfl

theorem Mirrors.narrow (mirrors : Mirrors operands registers contents value)
    (found : registers[value.index]? = some word) (known : operands.lookup value = some operand)
    (narrow : operand.width = .bit) :
    ∃ truth, operand.content? contents = some (.bit truth) ∧ word = if truth then 1 else 0 := by
  obtain ⟨other, foundThere, represents⟩ := mirrors
  cases found.symm.trans foundThere
  obtain ⟨content, holds, width, same⟩ := represents.content? known
  cases content with
  | bit truth => exact ⟨truth, holds, same.symm⟩
  | word word => cases width.trans narrow

theorem mapM_word? (words : List Int64) :
    (words.map Content.word).mapM Content.word? = some words := by
  induction words with
  | nil => rfl
  | cons word words induction =>
      rw [List.map_cons, List.mapM_cons, induction]
      rfl

/-- Wide operands stand for the words that are read. -/
theorem mapM_content? {values : List Value} {words : List Int64} {inputs : List Operand}
    (read : Ssa.readAll registers values = some words)
    (known : List.Forall₂ (fun value input => operands.lookup value = some input) values inputs)
    (wide : ∀ input ∈ inputs, input.width = .word)
    (mirrors : ∀ value ∈ values, Mirrors operands registers contents value) :
    inputs.mapM (Operand.content? contents) = some (words.map Content.word) := by
  rw [Ssa.readAll_eq_some] at read
  induction known generalizing words with
  | nil =>
      cases read
      rfl
  | cons first _ induction =>
      cases read with
      | cons found read =>
          rw [List.forall_mem_cons] at wide mirrors
          rw [List.mapM_cons, mirrors.1.wide found first wide.1, induction read wide.2 mirrors.2]
          rfl

end Represents

/-! ## Names that are given something -/

theorem Contents.set_of_ne (contents : Contents) {name other : Name} (content : Content)
    (different : other ≠ name) : contents.set (some name) content other = contents other := by
  rw [Contents.set]
  exact Function.update_of_ne different _ contents

theorem Represents.set {operands : Operands} {result : Value} (contents : Contents)
    {content : Content}
    (known : operands.lookup result = some (.result (.value result) content.width)) :
    Represents operands (contents.set (some (.value result)) content) result content.register := by
  apply Represents.content known
  rw [Contents.set, Function.update_self]

def assigned (values : List Value) (words : List Int64) : List (Name × Content) :=
  (values.zip words).map fun (value, word) => (.value value, .word word)

/-- The names of values stand for words. All of them are given something at once. -/
def Contents.assign (contents : Contents) (values : List Value) (words : List Int64) : Contents :=
  fun name => ((assigned values words).lookup name).or (contents name)

section Assign

variable {values : List Value} {words : List Int64} {value : Value}

theorem lookup_assigned_of_not_mem (absent : value ∉ values) :
    (assigned values words).lookup (.value value) = none := by
  rw [List.lookup_eq_none_iff]
  intro entry member
  obtain ⟨⟨other, word⟩, inside, rfl⟩ := List.mem_map.mp member
  apply bne_iff_ne.mpr
  rintro ⟨⟩
  exact absent (List.of_mem_zip inside).1

theorem lookup_assigned_of_nodup (distinct : values.Nodup) (same : values.length = words.length) :
    List.Forall₂ (fun value word => (assigned values words).lookup (.value value) =
      some (.word word)) values words := by
  induction values generalizing words with
  | nil =>
      cases words with
      | nil => exact .nil
      | cons _ _ => cases same
  | cons first rest induction =>
      cases words with
      | nil => cases same
      | cons word words =>
          obtain ⟨fresh, others⟩ := List.nodup_cons.mp distinct
          have tail := induction others (Nat.succ.inj same)
          rw [assigned, List.zip_cons_cons, List.map_cons]
          refine .cons List.lookup_cons_self (List.forall₂_iff_get.mpr ⟨tail.length_eq, ?_⟩)
          intro index inside insideThen
          have different : rest.get ⟨index, inside⟩ ≠ first := fun equal =>
            fresh (equal ▸ List.get_mem _ _)
          rw [List.lookup_cons, beq_false_of_ne fun equal => different (Name.value.inj equal)]
          exact tail.get inside insideThen

/-- Registers and names are given the same words. -/
theorem Mirrors.assign {operands : Operands} {registers later : Array Int64} {contents : Contents}
    (written : Ssa.writeAll registers values words = some later) (distinct : values.Nodup)
    (same : values.length = words.length)
    (known : ∀ value ∈ values, operands.lookup value = some (.result (.value value) .word))
    (before : value ∉ values → Mirrors operands registers contents value) :
    Mirrors operands later (contents.assign values words) value := by
  by_cases member : value ∈ values
  · obtain ⟨index, inside, rfl⟩ := List.mem_iff_getElem.mp member
    have insideThen : index < words.length := same ▸ inside
    have found := (Ssa.writeAll_of_nodup written distinct same).get inside insideThen
    have given := (lookup_assigned_of_nodup distinct same).get inside insideThen
    have name : contents.assign values words (.value values[index]) = some (.word words[index]) :=
      congrArg (Option.or · _) given
    exact ⟨words[index], found, .content (known _ member) name⟩
  · apply (before member).of_same (Ssa.writeAll_of_not_mem written member)
    rw [Contents.assign, lookup_assigned_of_not_mem member, Option.none_or]

theorem parameterContents_eq (values : List Value) (words : List Int64) :
    parameterContents (values.map fun value => ⟨.word, some value⟩) (words.map .word) =
      Contents.assign (fun _ => none) values words := by
  funext name
  rw [Contents.assign, Option.or_none, parameterContents]
  induction values generalizing words with
  | nil => rfl
  | cons value values induction =>
      cases words with
      | nil => rfl
      | cons word words =>
          rw [assigned, List.zip_cons_cons, List.map_cons, List.map_cons, List.map_cons,
            List.zip_cons_cons, List.lookup_cons, List.find?_cons]
          by_cases here : name = .value value
          · subst here
            simp
          · rw [beq_false_of_ne here]
            simpa [Ne.symm here, assigned] using induction words

end Assign

/-! ## Code that computes -/

/-- Assignments compute a word for a value: they can be executed, and then the operand of the value
represents the word; the names of other values stand for the same as before. -/
structure Computes (environment : Environment σ) (operands : Operands) (contents : Contents)
    (assignments : List Assignment) (result : Value) (word : Int64) (after : Contents) : Prop where
  reaches : ∀ function label more terminator waiting host,
    Machine.Reaches environment
      ⟨⟨function, label, assignments ++ more, terminator, contents⟩, waiting, host⟩
      ⟨⟨function, label, more, terminator, after⟩, waiting, host⟩
  represents : Represents operands after result word
  others : ∀ value, value ≠ result → after (.value value) = contents (.value value)

section Code

variable {environment : Environment σ} {function : Ssa.Function} {operands : Operands}
  {contents : Contents} {label : Label} {count : Nat} {instruction : Ssa.Instruction}
  {written : List Assignment} {terminator : Terminator} {registers : Array Int64}

theorem Computes.constant {result : Value} {word : Int64}
    (known : operands.lookup result = some (.constant .word word)) :
    Computes environment operands contents [] result word contents where
  reaches _ _ _ _ _ _ := .refl
  represents := .constant known
  others _ _ := rfl

theorem Computes.single {instruction : Instruction} {result : Value} {content : Content}
    (computed : instruction.content? contents = some content)
    (known : operands.lookup result = some (.result (.value result) content.width)) :
    Computes environment operands contents [⟨some (.value result), instruction⟩] result
      content.register (contents.set (some (.value result)) content) where
  reaches _ _ _ _ _ _ := .single (Machine.step_assign computed)
  represents := .set contents known
  others _ different := Contents.set_of_ne contents content (different ∘ Name.value.inj)

/-- A result that is not too large is the result of the operation. -/
theorem calculate_eq {operation : Arithmetic} {left right : Value} {first second word : Int64}
    {slots : Array Int64} {memory : Ssa.Memory}
    (onLeft : registers[left.index]? = some first) (onRight : registers[right.index]? = some second)
    (computed : Ssa.Machine.compute function slots registers memory
      (.arithmetic operation left right) = some (.ok word))
    (fits : (Ssa.Operation.arithmetic operation left right).overflows registers = false) :
    calculate operation first second = some word := by
  simp only [Ssa.Machine.compute, onLeft, onRight, Option.bind_eq_bind, Option.bind_some]
    at computed
  cases operation with
  | add | subtract | multiply =>
      cases computed
      rfl
  | divide =>
      simp only [Ssa.Operation.overflows, onLeft, onRight, Option.some.injEq,
        decide_eq_false_iff_not] at fits
      simp only at computed
      split at computed
      · cases computed
      · rename_i nonzero
        cases computed
        rw [calculate, if_neg (not_or.mpr ⟨nonzero, fits⟩)]

theorem neg_and_one (truth : Bool) :
    -((if truth then 1 else 0 : Int64) &&& 1) = if truth then -1 else 0 := by
  cases truth <;> rfl

/-- What is written for an instruction computes the same word as the instruction. -/
theorem Renders.computes
    (renders : Renders function operands label count instruction written)
    (scalar : function.Scalar) (member : instruction ∈ (function.block label).instructions)
    (idiomatic : instruction.Idiomatic function) (typed : operands.Typed function)
    (mirrors : ∀ value ∈ instruction.operation.operands,
      Mirrors operands registers contents value)
    {slots : Array Int64} {memory : Ssa.Memory} {word : Int64}
    (computed : Ssa.Machine.compute function slots registers memory instruction.operation =
      some (.ok word))
    (fits : instruction.operation.overflows registers = false) :
    ∃ result after, instruction.results = [result] ∧
      Computes environment operands contents written result word after := by
  obtain ⟨types, proper, _⟩ := idiomatic
  cases renders with
  | @constant result value _ given =>
      cases computed
      exact ⟨result, _, rfl, .constant given⟩
  | @arithmetic result left right operation first second _ onLeft onRight given =>
      cases proper with
      | arithmetic wordLeft wordRight =>
          have mirrorsLeft := mirrors left (by simp [Ssa.Operation.operands])
          have mirrorsRight := mirrors right (by simp [Ssa.Operation.operands])
          obtain ⟨one, foundLeft⟩ := mirrorsLeft.register
          obtain ⟨two, foundRight⟩ := mirrorsRight.register
          have calculated := calculate_eq foundLeft foundRight computed fits
          have content : (Instruction.arithmetic operation first second).content? contents =
              some (.word word) := by
            rw [Instruction.content?,
              mirrorsLeft.word? foundLeft onLeft (typed.width onLeft wordLeft),
              mirrorsRight.word? foundRight onRight (typed.width onRight wordRight)]
            simp [calculated]
          exact ⟨result, _, rfl, .single content given⟩
  | @compare result left right relation first second _ onLeft onRight given =>
      generalize Lowering.condition relation = condition at proper computed ⊢
      cases proper with
      | @compare other _ _ wordLeft wordRight =>
          have mirrorsLeft := mirrors left (by simp [Ssa.Operation.operands])
          have mirrorsRight := mirrors right (by simp [Ssa.Operation.operands])
          obtain ⟨one, foundLeft⟩ := mirrorsLeft.register
          obtain ⟨two, foundRight⟩ := mirrorsRight.register
          have content : (Instruction.compare (Lowering.condition other) first second).content?
              contents = some (.bit ((Lowering.condition other).holds one two)) := by
            rw [Instruction.content?,
              mirrorsLeft.word? foundLeft onLeft (typed.width onLeft wordLeft),
              mirrorsRight.word? foundRight onRight (typed.width onRight wordRight)]
            rfl
          simp only [Ssa.Machine.compute, foundLeft, foundRight, Option.bind_eq_bind,
            Option.bind_some, Option.some.injEq, Except.ok.injEq] at computed
          rw [← computed]
          exact ⟨result, _, rfl, .single content given⟩
  | @signExtend result value operand _ read given =>
      cases proper with
      | signExtend narrow =>
          have mirrorsValue := mirrors value (by simp [Ssa.Operation.operands])
          obtain ⟨one, found⟩ := mirrorsValue.register
          obtain ⟨truth, holds, rfl⟩ := mirrorsValue.narrow found read (typed.width read narrow)
          have content : (Instruction.signExtend operand .word).content? contents =
              some (.word (if truth then -1 else 0)) := by
            rw [Instruction.content?, holds]
            rfl
          simp only [Ssa.Machine.compute, found, narrow, Option.bind_eq_bind, Option.bind_some,
            if_true, Option.some.injEq, Except.ok.injEq] at computed
          rw [neg_and_one] at computed
          rw [← computed]
          exact ⟨result, _, rfl, .single content given⟩
  | load => exact absurd rfl (scalar.loads label _ member)
  | slotAddress found => simp [scalar.slots] at found
  | slotStart | slotStore | call => cases computed

end Code

/-! ## Phis -/

section Phis

variable {function : Ssa.Function} {entry source : Label} {operands : Operands}
  {contents : Contents} {registers : Array Int64} {destination : Ssa.Destination} {block : Block}
  {words : List Int64}

theorem join_eq_assign {phis : List Phi}
    (each : List.Forall₂ (fun phi word =>
      Phi.content? contents source phi = some (.value phi.value, .word word)) phis words) :
    join contents source phis = some (contents.assign (phis.map Phi.value) words) := by
  have joined : phis.mapM (Phi.content? contents source) =
      some (assigned (phis.map Phi.value) words) := by
    induction each with
    | nil => rfl
    | cons first _ induction =>
        rw [List.mapM_cons, first, induction]
        rfl
  rw [join, joined]
  rfl

/-- The phis of a block are given the words that are passed along a branch. -/
theorem RendersBlock.join_eq (written : RendersBlock function operands destination.block block)
    (lowered : function.Lowered entry) (placed : source ∈ function.layout)
    (exit : destination ∈ function.exits source) (typed : operands.Typed function)
    (knows : ∀ value ∈ destination.arguments, operands.Knows value)
    (read : Ssa.readAll registers destination.arguments = some words)
    (mirrors : ∀ value ∈ destination.arguments, Mirrors operands registers contents value) :
    join contents source block.phis =
      some (contents.assign (function.block destination.block).parameters words) := by
  obtain ⟨different, _, _, fits⟩ := lowered.leads placed exit
  have read := Ssa.readAll_eq_some.mp read
  have values := written.values
  have behind : function.entry? ≠ some destination.block := by
    rw [lowered.verified.first]
    exact fun same => different (Option.some.inj same).symm
  rw [if_neg behind] at values
  have count := congrArg List.length values
  rw [List.length_map] at count
  rw [← values]
  apply join_eq_assign
  refine List.forall₂_iff_get.mpr ⟨count.trans (fits.length_eq.symm.trans read.length_eq), ?_⟩
  intro index inside insideThen
  have bound : index < destination.arguments.length := read.length_eq ▸ insideThen
  have boundThen : index < (function.block destination.block).parameters.length := count ▸ inside
  -- The operand is the one for what the branch passes in the same place.
  obtain ⟨operand, known⟩ := knows _ (List.getElem_mem bound)
  have member : (operand, source) ∈ block.phis[index].incoming := by
    rw [written.incoming index _ (List.getElem?_eq_getElem inside)]
    exact (mem_carried lowered).mpr
      ⟨placed, destination, exit, rfl, _, List.getElem?_eq_getElem bound, known⟩
  have nodup : (block.phis[index].incoming.map Prod.snd).Nodup := by
    rw [written.incoming index _ (List.getElem?_eq_getElem inside)]
    exact carried_nodup lowered
  have wide : operand.width = .word := by
    obtain ⟨type, typing, word⟩ := fits.get bound boundThen
    have same := lowered.idiomatic.parameters _ _ (List.getElem_mem boundThen)
    cases word.symm.trans same
    exact typed.width known typing
  have holds := (mirrors _ (List.getElem_mem bound)).wide (read.get bound insideThen) known wide
  change Option.bind (block.phis[index].incoming.find? fun entry => entry.2 = source) _ = _
  rw [Ssa.find?_of_nodup nodup member, Option.bind_some]
  change Option.bind (operand.content? contents) _ = _
  rw [holds]
  rfl

end Phis

end Llvm

end ExprLang
