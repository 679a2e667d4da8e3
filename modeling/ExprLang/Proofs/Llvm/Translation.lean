import ExprLang.Proofs.Llvm.Provision

/-!
# Compiled modules in the LLVM language

Main statement: every compiled module can be written in the LLVM language, and what is written
follows the rules of the language.
-/

namespace ExprLang

open Ssa (Value Label extent)

namespace Llvm

/-! ## Names are given once -/

/-- The site at which a name gets its value. -/
inductive Locates (body : Ssa.Function) (entry : Label) : Name → Site → Prop
  | parameter {label : Label} {index : Nat} {value : Value}
      (found : (body.block label).parameters[index]? = some value) :
      Locates body entry (.value value)
        (if label = entry then .parameter index else .phi label index)
  | result {label : Label} {place : Nat} {instruction : Ssa.Instruction} {value : Value}
      (found : (body.block label).instructions[place]? = some instruction)
      (result : value ∈ instruction.results) :
      Locates body entry (.value value) (.result label
        ((reserved body label).length + extent ((body.block label).instructions.take place) +
          (instruction.span - 1)))
  | slot {index : Nat} : Locates body entry (.slot ⟨index⟩) (.result entry index)
  | temporary {label : Label} {index : Nat} :
      Locates body entry (.temporary label index) (.result label index)

theorem Locates.unique {body : Ssa.Function} {entry : Label} (single : body.SingleAssignment)
    {name : Name} {site other : Site} (located : Locates body entry name site)
    (again : Locates body entry name other) : site = other := by
  have parameter_mem : ∀ {label : Label} {index : Nat} {value : Value},
      (body.block label).parameters[index]? = some value →
        value ∈ (body.block label).definitions :=
    fun found => List.mem_append_left _ (List.mem_of_getElem? found)
  have result_mem : ∀ {label : Label} {place : Nat} {instruction : Ssa.Instruction} {value : Value},
      (body.block label).instructions[place]? = some instruction → value ∈ instruction.results →
        value ∈ (body.block label).instructions.flatMap Ssa.Instruction.results :=
    fun found result => List.mem_flatMap.mpr ⟨_, List.mem_of_getElem? found, result⟩
  have apart := fun label => List.nodup_append.mp (single.block_nodup label)
  cases located with
  | parameter found =>
      cases again with
      | parameter foundThere =>
          cases single.label_eq (parameter_mem found) (parameter_mem foundThere)
          obtain ⟨inside, _⟩ := List.getElem?_eq_some_iff.mp found
          cases (List.getElem?_inj inside (apart _).1).mp (found.trans foundThere.symm)
          rfl
      | result foundThere result =>
          cases single.label_eq (parameter_mem found)
            (List.mem_append_right _ (result_mem foundThere result))
          exact absurd rfl ((apart _).2.2 _ (List.mem_of_getElem? found) _
            (result_mem foundThere result))
  | result found result =>
      cases again with
      | parameter foundThere =>
          cases single.label_eq (parameter_mem foundThere)
            (List.mem_append_right _ (result_mem found result))
          exact absurd rfl ((apart _).2.2 _ (List.mem_of_getElem? foundThere) _
            (result_mem found result))
      | result foundThere resultThere =>
          obtain ⟨rfl, rfl⟩ := single.place_eq found foundThere result resultThere
          cases found.symm.trans foundThere
          rfl
  | slot =>
      cases again
      rfl
  | temporary =>
      cases again
      rfl

theorem Renders.names {body : Ssa.Function} {operands : Operands} {label : Label} {count : Nat}
    {instruction : Ssa.Instruction} {written : List Assignment}
    (renders : Renders body operands label count instruction written) {offset : Nat} {name : Name}
    {code : Instruction} (found : written[offset]? = some ⟨some name, code⟩) :
    name = .temporary label (count + offset) ∨
      ∃ result ∈ instruction.results, name = .value result ∧ offset = instruction.span - 1 := by
  cases renders with
  | constant => cases found
  | arithmetic | compare | signExtend | call =>
      obtain _ | offset := offset <;> cases found
      exact .inr ⟨_, List.mem_cons_self, rfl, rfl⟩
  | load =>
      obtain _ | _ | offset := offset <;> cases found
      · exact .inl rfl
      · exact .inr ⟨_, List.mem_cons_self, rfl, rfl⟩
  | slotAddress =>
      obtain _ | offset := offset <;> cases found
      exact .inl rfl
  | slotStart =>
      obtain _ | _ | _ | offset := offset <;> cases found <;> exact .inl rfl
  | slotStore =>
      obtain _ | _ | _ | _ | offset := offset <;> cases found <;> exact .inl rfl

theorem Closes.names {operands : Operands} {label : Label} {count : Nat}
    {instruction : Ssa.Instruction} {written : List Assignment} {terminator : Terminator}
    (closes : Closes operands label count instruction written terminator) {offset : Nat}
    {name : Name} {code : Instruction} (found : written[offset]? = some ⟨some name, code⟩) :
    name = .temporary label (count + offset) := by
  cases closes with
  | test =>
      obtain _ | offset := offset <;> cases found
      rfl
  | _ => simp at found

namespace RendersFunction

variable {body : Ssa.Function} {entry : Label} {progress : Progress} {function : Function}
  {functions : List Function}

theorem locates (renders : RendersFunction body entry progress function) {name : Name}
    {kind : Kind} {site : Site} (defines : function.Defines name kind site) :
    Locates body entry name site := by
  cases defines with
  | @parameter index parameter value found named =>
      rw [renders.parameters, List.getElem?_map, Option.map_eq_some_iff] at found
      obtain ⟨known, listed, rfl⟩ := found
      cases named
      have located : Locates body entry _ _ := .parameter listed
      simpa using located
  | @phi block index phi member found =>
      obtain ⟨_, written⟩ := renders.of_mem member
      have values := written.values
      split at values
      · rw [List.map_eq_nil_iff.mp values] at found
        cases found
      · rename_i other
        have listed : (body.block block.label).parameters[index]? = some phi.value := by
          rw [← values, List.getElem?_map, found]
          rfl
        have different : block.label ≠ entry := by
          intro same
          rw [same] at other
          exact other renders.lowered.verified.first
        have located : Locates body entry _ _ := .parameter listed
        simpa [different] using located
  | @result block index name instruction kind member found gives =>
      obtain ⟨same, words, equal⟩ |
        ⟨front, source, rest, here, offset, terminator, split, rfl, listed, _, comes⟩ :=
        renders.assignment_cases member found
      · cases equal
        rw [same]
        exact .slot
      · have temporary_or : name = .temporary block.label
              ((reserved body block.label).length + extent front + offset) ∨
            ∃ result ∈ source.results, name = .value result ∧ offset = source.span - 1 := by
          rcases comes with rendered | closes
          · exact rendered.names listed
          · exact .inl (closes.names listed)
        rcases temporary_or with rfl | ⟨result, inside, rfl, rfl⟩
        · exact .temporary
        · have place : (body.block block.label).instructions[front.length]? = some source := by
            rw [split]
            simp
          have located : Locates body entry _ _ := .result place inside
          rwa [split, List.take_left] at located

theorem kind_eq (renders : RendersFunction body entry progress function) {first second : Name}
    {kind other : Kind} {site : Site} (defines : function.Defines first kind site)
    (again : function.Defines second other site) : kind = other := by
  cases defines with
  | parameter found =>
      cases again with
      | parameter foundThere =>
          cases found.symm.trans foundThere
          rfl
  | @phi block index phi member found =>
      generalize same : Site.phi block.label index = site at again
      cases again with
      | @phi there place joined memberThere foundThere =>
          obtain ⟨label, rfl⟩ := Site.phi.inj same
          cases renders.block_eq member memberThere label
          cases found.symm.trans foundThere
          rfl
      | _ => cases same
  | @result block index name instruction kind member found gives =>
      generalize same : Site.result block.label index = site at again
      cases again with
      | @result there place _ _ _ memberThere foundThere givesThere =>
          obtain ⟨label, rfl⟩ := Site.result.inj same
          cases renders.block_eq member memberThere label
          cases found.symm.trans foundThere
          exact Option.some.inj (gives.symm.trans givesThere)
      | _ => cases same

theorem predecessors_entry (renders : RendersFunction body entry progress function) :
    function.predecessors entry = [] := by
  rw [List.eq_nil_iff_forall_not_mem]
  intro source member
  obtain ⟨placed, destination, exit, same⟩ := renders.mem_predecessors.mp member
  exact (renders.lowered.leads placed exit).different same

theorem wellFormed (renders : RendersFunction body entry progress function)
    (callable : Callable body functions) : function.WellFormed functions where
  labels := renders.nodup
  single name kind other site place defines again := by
    cases (renders.locates defines).unique renders.lowered.dominated.single (renders.locates again)
    exact ⟨renders.kind_eq defines again, rfl⟩
  entry block first := by
    have same := renders.head first
    obtain ⟨_, written⟩ := renders.of_mem (List.mem_of_mem_head? first)
    refine ⟨by rw [same]; exact renders.predecessors_entry, ?_⟩
    have values := written.values
    rw [same, if_pos renders.lowered.verified.first] at values
    exact List.map_eq_nil_iff.mp values
  blocks _ := renders.blockFormed callable

end RendersFunction

/-! ## Modules -/

/-- What is written for a function. An imported one has no blocks. Another one has the blocks of its
body, and the phis of a block are for its parameters: a phi takes the operands for what is passed
along the branches that lead to the block. -/
structure Translates (declaration : Ssa.Declaration) (function : Function) : Prop where
  name : function.name = declaration.name
  imported : declaration.linkage = .imported → function.blocks = []
  defined : declaration.linkage ≠ .imported → ∃ body progress, declaration.body = some body ∧
    body.reversePostorder.foldlM (addBlock body) ⟨parameterOperands body, []⟩ = .ok progress ∧
    function.blocks.map Block.label = body.layout ∧
    ∀ block ∈ function.blocks,
      (block.phis.map Phi.value = if body.entry? = some block.label then []
        else (body.block block.label).parameters) ∧
      ∀ (index : Nat) (phi : Phi), block.phis[index]? = some phi → ∀ operand source,
        (operand, source) ∈ phi.incoming ↔ source ∈ body.layout ∧
          ∃ destination ∈ body.exits source, destination.block = block.label ∧
            ∃ argument, destination.arguments[index]? = some argument ∧
              progress.operands.lookup argument = some operand

theorem RendersDeclaration.translates {declaration : Ssa.Declaration} {function : Function}
    (renders : RendersDeclaration declaration function) : Translates declaration function where
  name := renders.named
  imported linked := by
    rw [(renders.imported linked).2]
    rfl
  defined linked := by
    obtain ⟨body, entry, progress, known, written⟩ := renders.defined linked
    refine ⟨body, progress, known, written.folded, written.map_label, fun block member => ?_⟩
    have own := (written.of_mem member).2
    refine ⟨own.values, fun index phi found operand source => ?_⟩
    rw [own.incoming index phi found]
    exact mem_carried written.lowered

theorem wellFormed_declaration (declaration : Ssa.Declaration) (functions : List Function) :
    (declarationOfSsa declaration).WellFormed functions where
  labels := List.nodup_nil
  single name kind other site place defines := by
    cases defines with
    | parameter found named =>
        rw [declarationOfSsa, List.getElem?_map, Option.map_eq_some_iff] at found
        obtain ⟨_, _, rfl⟩ := found
        cases named
    | phi member | result member => cases member
  entry block first := by cases first
  blocks block member := by cases member

variable {definitions : List TypedDefinition} {compiler : Compiler}

theorem callable (regular : compiler.Regular definitions) {functions : List Function}
    (all : List.Forall₂ RendersDeclaration compiler.module.declarations.toList functions)
    (id : Ssa.FunctionId) {body : Ssa.Function}
    (found : compiler.module.body? id = some body) :
    RendersFunction.Callable body functions := by
  intro external member
  obtain ⟨_, declaration, known, named, same⟩ := (regular.origin id body found).external member
  obtain ⟨inside, equal⟩ := Array.getElem?_eq_some_iff.mp known
  have insideThen : external.id.index < functions.length := by
    rw [← all.length_eq]
    simpa using inside
  have renders := all.get (by simpa using inside) insideThen
  simp only [List.get_eq_getElem, Array.getElem_toList, equal] at renders
  refine ⟨_, List.getElem_mem insideThen, renders.named.trans named, renders.width, ?_⟩
  rw [renders.parameters, same]

theorem Module.wellFormed (regular : compiler.Regular definitions) {translated : Module}
    (all : List.Forall₂ RendersDeclaration compiler.module.declarations.toList
      translated.functions) : translated.WellFormed where
  names := by
    have names : translated.functions.map Function.name =
        compiler.module.declarations.toList.map Ssa.Declaration.name := by
      generalize translated.functions = functions at all
      generalize compiler.module.declarations.toList = declarations at all
      induction all with
      | nil => rfl
      | cons first _ induction => rw [List.map_cons, List.map_cons, first.named, induction]
    rw [names, List.nodup_iff_injective_get]
    rintro ⟨first, inside⟩ ⟨second, insideThere⟩ same
    simp only [List.length_map, Array.length_toList] at inside insideThere
    simp only [List.get_eq_getElem, List.getElem_map, Array.getElem_toList] at same
    have equal := regular.distinct ⟨first⟩ ⟨second⟩ _ _ (Array.getElem?_eq_getElem inside)
      (Array.getElem?_eq_getElem insideThere) same
    cases equal
    rfl
  functions function member := by
    obtain ⟨index, inside, rfl⟩ := List.mem_iff_getElem.mp member
    have insideThen : index < compiler.module.declarations.toList.length := by
      rwa [all.length_eq]
    have renders := all.get insideThen inside
    simp only [List.get_eq_getElem] at renders
    by_cases linked : compiler.module.declarations.toList[index].linkage = .imported
    · rw [(renders.imported linked).2]
      exact wellFormed_declaration _ _
    · obtain ⟨body, entry, progress, known, written⟩ := renders.defined linked
      refine written.wellFormed (callable regular all ⟨index⟩ ?_)
      rw [Ssa.Module.body?, Ssa.Module.declaration?, ← Array.getElem?_toList,
        List.getElem?_eq_getElem insideThen]
      exact known

end Llvm

/-- Take a compiler, with any built-in functions, that has taken any checked definitions. Then its
module can be written in the LLVM language for every target, and what is written is well formed:
every operand is a constant or has a value of its kind wherever it is used, because its only
definition comes before in the same block or stands in a block that dominates the use; truth values
arise from comparisons only, and are only extended or decide branches; every block ends in one
terminator; and the phis of a block take exactly one operand from every predecessor, the one for
what the branch from there passes. -/
theorem compiled_modules_translate (name entry : String) (registry : Registry)
    (definitions : List TypedDefinition) (first compiler : Compiler)
    (checked : ∀ definition ∈ definitions, ∃ (known : SignatureTable)
      (source : Definition Position), source.check known = .ok definition)
    (started : Compiler.start name registry entry = .ok first)
    (added : first.addAll definitions = .ok compiler) (triple : String) :
    ∃ translated, Llvm.Module.ofSsa compiler.module triple = .ok translated ∧
      translated.WellFormed ∧
      List.Forall₂ Llvm.Translates compiler.module.declarations.toList translated.functions := by
  have regular := Compiler.regular_of_addAll checked started added
  obtain ⟨translated, written, all⟩ := Llvm.ofSsa_eq_ok regular triple
  exact ⟨translated, written, Llvm.Module.wellFormed regular all,
    all.imp fun _ _ renders => renders.translates⟩

theorem compiled_modules_translate_boundedSum : ∃ typed first compiler,
    boundedSum.check .standard = .ok typed ∧
      Compiler.start "sums" Registry.standard "sum" = .ok first ∧
      first.addAll [typed] = .ok compiler ∧
      ∃ translated, Llvm.Module.ofSsa compiler.module "x86_64-unknown-linux-gnu" = .ok translated ∧
        translated.WellFormed ∧
        List.Forall₂ Llvm.Translates compiler.module.declarations.toList translated.functions := by
  have compiled : ((boundedSum.check .standard).toOption.bind fun typed =>
      (Compiler.start "sums" Registry.standard "sum").toOption.bind fun first =>
        (first.addAll [typed]).toOption).isSome = true := by
    decide +kernel
  obtain ⟨compiler, compiled⟩ := Option.isSome_iff_exists.mp compiled
  obtain ⟨typed, checked, compiled⟩ := Option.bind_eq_some_iff.mp compiled
  obtain ⟨first, started, compiled⟩ := Option.bind_eq_some_iff.mp compiled
  have checked := eq_ok_of_toOption checked
  have started := eq_ok_of_toOption started
  have added := eq_ok_of_toOption compiled
  refine ⟨typed, first, compiler, checked, started, added, ?_⟩
  refine compiled_modules_translate "sums" "sum" Registry.standard [typed] first compiler ?_ started
    added _
  simp only [List.mem_singleton, forall_eq]
  exact ⟨_, boundedSum, checked⟩

end ExprLang
