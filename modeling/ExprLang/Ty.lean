/-!
# Value types

The types of the source language, and the signatures of functions. Besides the types that a
program can write there are two that only incomplete data has: `invalid`, the type of nothing,
and `unknownArray`, an array whose elements have no known type.
-/

namespace ExprLang

inductive Ty where
  | invalid
  | int
  | float
  | bool
  | array (element : Ty)
  | unknownArray
deriving DecidableEq, Repr, Inhabited

namespace Ty

inductive Kind where
  | invalid
  | int
  | float
  | bool
  | array
deriving DecidableEq, Repr

def kind : Ty → Kind
  | invalid => .invalid
  | int => .int
  | float => .float
  | bool => .bool
  | array _ => .array
  | unknownArray => .array

def isValid (type : Ty) : Bool :=
  type.kind != .invalid

def isArray (type : Ty) : Bool :=
  type.kind == .array

/-- The type of the elements of an array type. `unknownArray` has none that could be looked up, and
no program can write it; `invalid` only fills the place there. -/
def element : Ty → Ty
  | array element => element
  | _ => invalid

def isEqual : Ty → Ty → Bool
  | array left, array right => left.isEqual right
  | array _, unknownArray | unknownArray, array _ => false
  | left, right => left.kind == right.kind

theorem isEqual_iff {left right : Ty} : left.isEqual right = true ↔ left = right := by
  induction left generalizing right with
  | array element induction => cases right <;> simp [isEqual, kind, induction]
  | _ => cases right <;> simp [isEqual, kind]

def contains (kind : Kind) : Ty → Bool
  | array element => kind == .array || element.contains kind
  | type => type.kind == kind

def render : Ty → String
  | invalid => "<invalid>"
  | int => "Int"
  | float => "Float"
  | bool => "Bool"
  | array element => "Array<" ++ element.render ++ ">"
  | unknownArray => "Array<?>"

end Ty

structure Signature where
  parameters : List Ty
  result : Ty
deriving DecidableEq, Repr, Inhabited

namespace Signature

def isEqual (left right : Signature) : Bool :=
  left.parameters.length == right.parameters.length && left.result.isEqual right.result &&
    (left.parameters.zip right.parameters).all fun (one, other) => one.isEqual other

theorem isEqual_iff {left right : Signature} : left.isEqual right = true ↔ left = right := by
  have pairs : ∀ first second : List Ty, first.length = second.length →
      (((first.zip second).all fun (one, other) => one.isEqual other) = true ↔
        first = second) := by
    intro first
    induction first with
    | nil =>
        intro second same
        simp [List.length_eq_zero_iff.mp same.symm]
    | cons one first induction =>
        intro second same
        cases second with
        | nil => cases same
        | cons other second =>
            simp [Ty.isEqual_iff, induction second (Nat.succ.inj same)]
  cases left with
  | mk parameters result =>
      cases right with
      | mk others wanted =>
          rw [isEqual, Bool.and_eq_true, Bool.and_eq_true, beq_iff_eq, Ty.isEqual_iff,
            Signature.mk.injEq]
          constructor
          · intro all
            exact ⟨(pairs _ _ all.1.1).mp all.2, all.1.2⟩
          · rintro ⟨rfl, rfl⟩
            exact ⟨⟨rfl, rfl⟩, (pairs _ _ rfl).mpr rfl⟩

def render (signature : Signature) : String :=
  "(" ++ String.intercalate ", " (signature.parameters.map Ty.render) ++ ") -> " ++
    signature.result.render

end Signature

end ExprLang
