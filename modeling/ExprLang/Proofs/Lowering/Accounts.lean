import ExprLang.Proofs.Lowering.Derivation

/-!
# Accounts of lowered code

An account of a derivation lists the notes of everything that is lowered, in order, each with the
value that is computed for its node. Every derivation has one, and leaving out the list gives the
derivation back.
-/

namespace ExprLang.Lowering

open Ssa

namespace Work

def notes : Work → List Typing
  | expression tree => tree.notes
  | expressions trees | elements _ _ trees => Expr.notesAll trees

def roots : Work → List (Expr Typing)
  | expression tree => [tree]
  | expressions trees => trees
  | elements _ _ _ => []

end Work

abbrev Table := List (Typing × Value)

inductive Accounts (setting : Setting) : Work → Stage → List Value → Stage → Table → Prop
  | integer {note value first last}
      (emits : Does [.emit (.constant .i64 value) [.i64]] first last) :
      Accounts setting (.expression (.integer note value)) first [first.next] last
        [(note, first.next)]
  | boolean {note value first last}
      (emits : Does [.emit (.constant .i64 (truthWord value)) [.i64]] first last) :
      Accounts setting (.expression (.boolean note value)) first [first.next] last
        [(note, first.next)]
  | ident {note name var value first last}
      (bound : first.bound.lookup name = some var) (uses : Does [.use var value] first last) :
      Accounts setting (.expression (.ident note name)) first [value] last [(note, value)]
  | comparison {note relation left right leftValue rightValue first middle ready compared last
      leftTable rightTable}
      (onLeft : Accounts setting (.expression left) first [leftValue] middle leftTable)
      (onRight : Accounts setting (.expression right) middle [rightValue] ready rightTable)
      (compares : Does [.emit (.compare (condition relation) leftValue rightValue) [.i1]]
        ready compared)
      (widens : Does [.emit (.signExtend .i64 ready.next) [.i64]] compared last) :
      Accounts setting (.expression (.binary note (.comparison relation) left right)) first
        [compared.next] last ((note, compared.next) :: (leftTable ++ rightTable))
  | arithmetic {note operation left right leftValue rightValue first middle ready last leftTable
      rightTable}
      (onLeft : Accounts setting (.expression left) first [leftValue] middle leftTable)
      (onRight : Accounts setting (.expression right) middle [rightValue] ready rightTable)
      (emits : Does [.emit (.arithmetic operation leftValue rightValue) [.i64]] ready last) :
      Accounts setting (.expression (.binary note (.arithmetic operation) left right)) first
        [ready.next] last ((note, ready.next) :: (leftTable ++ rightTable))
  | bind {note name tree value first middle last table}
      (inner : Accounts setting (.expression tree) first [value] middle table)
      (binds : Binds name value middle last) :
      Accounts setting (.expression (.bind note name tree)) first [value] last
        ((note, value) :: table)
  | sequence {note left right leftValue rightValue first middle last leftTable rightTable}
      (onLeft : Accounts setting (.expression left) first [leftValue] middle leftTable)
      (onRight : Accounts setting (.expression right) middle [rightValue] last rightTable) :
      Accounts setting (.expression (.sequence note left right)) first [rightValue] last
        ((note, rightValue) :: (leftTable ++ rightTable))
  | call {note function trees reference values first named ready last table}
      (refers : Refers setting function first reference named)
      (onArguments : Accounts setting (.expressions trees) named values ready table)
      (emits : Does [.emit (.call reference values) [.i64]] ready last) :
      Accounts setting (.expression (.call note function trees)) first [ready.next] last
        ((note, ready.next) :: table)
  | conditional {note test onTrue onFalse testValue result left right first tested opened filled
      turned done last testTable leftTable rightTable}
      (onTest : Accounts setting (.expression test) first [testValue] tested testTable)
      (forks : Forks testValue tested result opened)
      (leftArm : Accounts setting (.expression onTrue) opened [left] filled leftTable)
      (turns : Does (hopping (.jump ⟨⟨tested.blocks + 2⟩, [left]⟩) ⟨tested.blocks + 1⟩)
        filled turned)
      (rightArm : Accounts setting (.expression onFalse) turned [right] done rightTable)
      (joins : Does (hopping (.jump ⟨⟨tested.blocks + 2⟩, [right]⟩) ⟨tested.blocks + 2⟩)
        done last) :
      Accounts setting (.expression (.conditional note test onTrue onFalse)) first [result] last
        ((note, result) :: (testTable ++ (leftTable ++ rightTable)))
  | each {note name bound body limit round one value first limited opened inside filled advanced
      left last boundTable bodyTable}
      (onBound : Accounts setting (.expression bound) first [limit] limited boundTable)
      (enters : Enters limit limited round one opened)
      (binds : Binds name round opened inside)
      (inLoop : Accounts setting (.expression body) inside [value] filled bodyTable)
      (advances : Does [.emit (.arithmetic .add round one) [.i64]] filled advanced)
      (leaves : Does (leaving filled.next limited.blocks) advanced left)
      (emits : Does [.emit (.constant .i64 0) [.i64]] left last) :
      Accounts setting (.expression (.each note name bound body)) first [left.next] last
        ((note, left.next) :: (boundTable ++ bodyTable))
  | array {note trees first reserved counted started filled last table}
      (reserves : Does [.reserve (UInt32.ofNat (wordSize * (trees.length + 1)))] first reserved)
      (counts : Does [.emit (.constant .i64 (Int64.ofNat trees.length)) [.i64]] reserved counted)
      (starts : Does [.emit (.slotStore reserved.next first.nextSlot (wordOffset 0)) []]
        counted started)
      (stores : Accounts setting (.elements first.nextSlot 1 trees) started [] filled table)
      (locates : Does [.emit (.slotAddress .i64 first.nextSlot (wordOffset 0)) [.i64]]
        filled last) :
      Accounts setting (.expression (.array note trees)) first [filled.next] last
        ((note, filled.next) :: table)
  | index {note target position base offset first based ready one word placed scaled located last
      targetTable positionTable}
      (onTarget : Accounts setting (.expression target) first [base] based targetTable)
      (onPosition : Accounts setting (.expression position) based [offset] ready positionTable)
      (ones : Does [.emit (.constant .i64 1) [.i64]] ready one)
      (words : Does [.emit (.constant .i64 (Int64.ofNat wordSize)) [.i64]] one word)
      (places : Does [.emit (.arithmetic .add offset ready.next) [.i64]] word placed)
      (scales : Does [.emit (.arithmetic .multiply word.next one.next) [.i64]] placed scaled)
      (locates : Does [.emit (.arithmetic .add base placed.next) [.i64]] scaled located)
      (loads : Does [.emit (.load .i64 scaled.next (wordOffset 0)) [.i64]] located last) :
      Accounts setting (.expression (.index note target position)) first [located.next] last
        ((note, located.next) :: (targetTable ++ positionTable))
  | length {note target base first based last table}
      (onTarget : Accounts setting (.expression target) first [base] based table)
      (loads : Does [.emit (.load .i64 base (wordOffset 0)) [.i64]] based last) :
      Accounts setting (.expression (.length note target)) first [based.next] last
        ((note, based.next) :: table)
  | nil {stage} : Accounts setting (.expressions []) stage [] stage []
  | cons {tree trees value values first middle last table others}
      (head : Accounts setting (.expression tree) first [value] middle table)
      (tail : Accounts setting (.expressions trees) middle values last others) :
      Accounts setting (.expressions (tree :: trees)) first (value :: values) last
        (table ++ others)
  | stop {slot index stage} : Accounts setting (.elements slot index []) stage [] stage []
  | store {slot index tree trees value first middle stored last table others}
      (head : Accounts setting (.expression tree) first [value] middle table)
      (stores : Does [.emit (.slotStore value slot (wordOffset index)) []] middle stored)
      (tail : Accounts setting (.elements slot (index + 1) trees) stored [] last others) :
      Accounts setting (.elements slot index (tree :: trees)) first [] last (table ++ others)

variable {setting : Setting} {work : Work} {first last : Stage} {values : List Value}
  {table : Table}

theorem Accounts.lowers (accounts : Accounts setting work first values last table) :
    Lowers setting work first values last := by
  induction accounts with
  | integer emits => exact .integer emits
  | boolean emits => exact .boolean emits
  | ident bound uses => exact .ident bound uses
  | comparison _ _ compares widens left right => exact .comparison left right compares widens
  | arithmetic _ _ emits left right => exact .arithmetic left right emits
  | bind _ binds inner => exact .bind inner binds
  | sequence _ _ left right => exact .sequence left right
  | call refers _ emits arguments => exact .call refers arguments emits
  | conditional _ forks _ turns _ joins test left right =>
      exact .conditional test forks left turns right joins
  | each _ enters binds _ advances leaves emits bound body =>
      exact .each bound enters binds body advances leaves emits
  | array reserves counts starts _ locates elements =>
      exact .array reserves counts starts elements locates
  | index _ _ ones words places scales locates loads target position =>
      exact .index target position ones words places scales locates loads
  | length _ loads target => exact .length target loads
  | nil => exact .nil
  | cons _ _ head tail => exact .cons head tail
  | stop => exact .stop
  | store _ stores _ head tail => exact .store head stores tail

theorem Lowers.accounts (lowers : Lowers setting work first values last) :
    ∃ table, Accounts setting work first values last table := by
  induction lowers with
  | integer emits => exact ⟨_, .integer emits⟩
  | boolean emits => exact ⟨_, .boolean emits⟩
  | ident bound uses => exact ⟨_, .ident bound uses⟩
  | comparison _ _ compares widens left right =>
      obtain ⟨_, left⟩ := left
      obtain ⟨_, right⟩ := right
      exact ⟨_, .comparison left right compares widens⟩
  | arithmetic _ _ emits left right =>
      obtain ⟨_, left⟩ := left
      obtain ⟨_, right⟩ := right
      exact ⟨_, .arithmetic left right emits⟩
  | bind _ binds inner =>
      obtain ⟨_, inner⟩ := inner
      exact ⟨_, .bind inner binds⟩
  | sequence _ _ left right =>
      obtain ⟨_, left⟩ := left
      obtain ⟨_, right⟩ := right
      exact ⟨_, .sequence left right⟩
  | call refers _ emits arguments =>
      obtain ⟨_, arguments⟩ := arguments
      exact ⟨_, .call refers arguments emits⟩
  | conditional _ forks _ turns _ joins test left right =>
      obtain ⟨_, test⟩ := test
      obtain ⟨_, left⟩ := left
      obtain ⟨_, right⟩ := right
      exact ⟨_, .conditional test forks left turns right joins⟩
  | each _ enters binds _ advances leaves emits bound body =>
      obtain ⟨_, bound⟩ := bound
      obtain ⟨_, body⟩ := body
      exact ⟨_, .each bound enters binds body advances leaves emits⟩
  | array reserves counts starts _ locates elements =>
      obtain ⟨_, elements⟩ := elements
      exact ⟨_, .array reserves counts starts elements locates⟩
  | index _ _ ones words places scales locates loads target position =>
      obtain ⟨_, target⟩ := target
      obtain ⟨_, position⟩ := position
      exact ⟨_, .index target position ones words places scales locates loads⟩
  | length _ loads target =>
      obtain ⟨_, target⟩ := target
      exact ⟨_, .length target loads⟩
  | nil => exact ⟨_, .nil⟩
  | cons _ _ head tail =>
      obtain ⟨_, head⟩ := head
      obtain ⟨_, tail⟩ := tail
      exact ⟨_, .cons head tail⟩
  | stop => exact ⟨_, .stop⟩
  | store _ stores _ head tail =>
      obtain ⟨_, head⟩ := head
      obtain ⟨_, tail⟩ := tail
      exact ⟨_, .store head stores tail⟩

namespace Accounts

theorem notes (accounts : Accounts setting work first values last table) :
    table.map Prod.fst = work.notes := by
  induction accounts with
  | integer | boolean | ident => rfl
  | nil | stop => simp [Work.notes, Expr.notesAll]
  | cons _ _ head tail | store _ _ _ head tail =>
      simp_all [Work.notes, Expr.notesAll]
  | _ => simp_all [Work.notes, Expr.notes]

theorem root {tree : Expr Typing} {value : Value}
    (accounts : Accounts setting (.expression tree) first [value] last table) :
    (tree.note, value) ∈ table := by
  cases accounts <;> exact List.mem_cons_self

theorem roots (accounts : Accounts setting work first values last table) :
    List.Forall₂ (fun tree value => (tree.note, value) ∈ table) work.roots values := by
  induction accounts with
  | nil | stop | store => exact .nil
  | cons head _ _ tail =>
      refine .cons (List.mem_append_left _ head.root) (tail.imp fun _ _ member => ?_)
      exact List.mem_append_right _ member
  | _ => exact .cons List.mem_cons_self .nil

end Accounts

end ExprLang.Lowering
