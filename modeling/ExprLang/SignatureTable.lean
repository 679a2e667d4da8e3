import ExprLang.Text.Quoted
import ExprLang.Ty

/-!
# Signature tables

The functions that a program may call, in the order in which they became known. Entries are
only ever added at the end, and a name that is present stays as it is.
-/

namespace ExprLang

/-- Known functions with their signatures, oldest first. -/
structure SignatureTable where
  entries : List (String × Signature)
deriving DecidableEq, Repr, Inhabited

/-- A name that is taken already, with the signature that it has. -/
structure DuplicateName where
  name : String
  existing : Signature
deriving DecidableEq, Repr

/-- What is said about a name that is taken already. -/
def DuplicateName.message (failure : DuplicateName) : String :=
  "function " ++ Text.quote failure.name ++ " is already defined as " ++ failure.existing.render

namespace SignatureTable

def empty : SignatureTable := ⟨[]⟩

/-- The names in the table, oldest first. -/
def names (table : SignatureTable) : List String :=
  table.entries.map Prod.fst

def size (table : SignatureTable) : Nat :=
  table.entries.length

def find? (table : SignatureTable) (name : String) : Option Signature :=
  table.entries.lookup name

def push (table : SignatureTable) (name : String) (signature : Signature) : SignatureTable :=
  ⟨table.entries ++ [(name, signature)]⟩

/-- Adds a function, unless the name is taken. -/
def register (table : SignatureTable) (name : String) (signature : Signature) :
    Except DuplicateName SignatureTable :=
  match table.find? name with
  | some existing => .error ⟨name, existing⟩
  | none => .ok (table.push name signature)

/-- Adds functions one after the other up to the first whose name is taken. Those before it
stay in the table, which is the second component of the answer. -/
def registerAll (table : SignatureTable) :
    List (String × Signature) → Option DuplicateName × SignatureTable
  | [] => (none, table)
  | (name, signature) :: rest =>
    match table.register name signature with
    | .ok larger => larger.registerAll rest
    | .error failure => (some failure, table)

def ofList (entries : List (String × Signature)) : Except DuplicateName SignatureTable :=
  match empty.registerAll entries with
  | (none, table) => .ok table
  | (some failure, _) => .error failure

end SignatureTable

end ExprLang
