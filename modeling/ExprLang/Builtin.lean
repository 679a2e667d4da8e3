import ExprLang.SignatureTable

/-!
# Built-in functions

Functions that every program can call without defining them. A registry is an ordered list of
such functions; two of one name are possible, and the first counts.
-/

namespace ExprLang

structure Builtin where
  name : String
  signature : Signature
deriving DecidableEq, Repr

abbrev Registry := List Builtin

namespace Registry

def onIntegers (name : String) : Builtin :=
  ⟨name, ⟨[.int], .int⟩⟩

def standard : Registry :=
  ["printint", "printchar", "printcharln", "printintln", "readchar"].map onIntegers

def names (registry : Registry) : List String :=
  registry.map Builtin.name

def find? (registry : Registry) (name : String) : Option Builtin :=
  List.find? (fun builtin => builtin.name == name) registry

def entries (registry : Registry) : List (String × Signature) :=
  registry.map fun builtin => (builtin.name, builtin.signature)

def seed (registry : Registry) (table : SignatureTable) :
    Option DuplicateName × SignatureTable :=
  table.registerAll registry.entries

/-- The table that holds exactly the functions of a registry. -/
def table (registry : Registry) : Except DuplicateName SignatureTable :=
  SignatureTable.ofList registry.entries

end Registry

def SignatureTable.standard : SignatureTable :=
  ⟨Registry.standard.entries⟩

end ExprLang
