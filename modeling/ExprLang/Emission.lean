import ExprLang.Llvm.OfSsa
import ExprLang.Llvm.Printer

/-!
# Emission

A finished module is written out as text, either as it is or in the LLVM language.
-/

namespace ExprLang

inductive EmitError where
  | llvm (obstacle : Llvm.ModuleObstacle)
deriving DecidableEq, Repr

def EmitError.message : EmitError → String
  | llvm obstacle => "emit error: translating to LLVM IR: " ++ obstacle.message

inductive TextFormat where
  | ssa
  | llvm (triple : String)
deriving DecidableEq, Repr

namespace TextFormat

def emit : TextFormat → Ssa.Module → Except EmitError String
  | ssa, module => .ok module.render
  | llvm triple, module =>
    match Llvm.Module.ofSsa module triple with
    | .ok module => .ok module.render
    | .error obstacle => .error (.llvm obstacle)

def finish (format : Option TextFormat) (module : Ssa.Module) :
    Except (Ssa.FinishError EmitError) String :=
  module.finish (format.map emit)

end TextFormat

end ExprLang
