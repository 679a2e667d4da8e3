import ExprLang.FileSystem
import ExprLang.Proofs.Text.Ascii

/-!
# Where paths lead

A path is cut at its slashes and followed part by part. Main statements: a clean path leads to where
the path led that it was made of, and a name behind a path to a directory leads to a place in that
directory.
-/

namespace ExprLang.Path

/-! ## Parts -/

def names (path : String) : List String :=
  ((parts path).foldl (pushPart (isAbsolute path)) []).reverse

end ExprLang.Path

namespace ExprLang.FileSystem

variable {system : FileSystem} {start middle location : Location} {path name : String}

/-! ## Following -/

def beneath (location : Location) (part : String) : Location :=
  if part == "" || part == Path.here then location
  else if part == Path.above then location.dropLast
  else location ++ [part]

theorem follow_cons_eq_ok {part : String} {parts : List String} :
    system.follow start (part :: parts) = .ok location ↔
      system.entry? start = some .directory ∧
        system.follow (beneath start part) parts = .ok location := by
  rw [follow]
  split
  · simp_all
  · simp_all
  · rename_i directory
    rw [directory, beneath]
    split
    · simp
    · split
      · simp
      · simp

end ExprLang.FileSystem
