import ExprLang.Datum

/-!
# Comparing data with patterns

A pattern is a datum in which an ellipsis among the items of a list or array stands for any
number of items, and an ellipsis by itself for any datum. Where a datum does not match, a
path of item numbers leads to the first difference.
-/

namespace ExprLang.Datum

mutual

def accepts : Datum → Datum → Bool
  | ellipsis, _ => true
  | symbol expected, symbol found => expected == found
  | string expected, string found => expected == found
  | integer expected, integer found => expected == found
  | list patterns, list items => acceptsAll patterns items
  | array patterns, array items => acceptsAll patterns items
  | _, _ => false

/-- Whether items match patterns. An ellipsis may pass over any number of items. -/
def acceptsAll : List Datum → List Datum → Bool
  | [], items => items.isEmpty
  | ellipsis :: patterns, items =>
    (List.range (items.length + 1)).any fun passed => acceptsAll patterns (items.drop passed)
  | pattern :: patterns, items =>
    match items with
    | [] => false
    | item :: items => pattern.accepts item && acceptsAll patterns items

end

structure Mismatch where
  path : List Nat
  pattern : Datum
  datum : Datum
deriving Repr

def Mismatch.message (mismatch : Mismatch) : Bytes :=
  let shown (datum : Datum) : Bytes :=
    if mismatch.pattern.kind = mismatch.datum.kind then datum.render
    else Bytes.ofString (datum.kind.name ++ " ") ++ datum.render
  let path := String.join (mismatch.path.map fun index => "[" ++ Text.decimal index ++ "]")
  Bytes.ofString ("at root" ++ path ++ ": expected ") ++ shown mismatch.pattern ++
    Bytes.ofString ", got " ++ shown mismatch.datum

def isAligned (patterns items : List Datum) : Bool :=
  !patterns.any isEllipsis && patterns.length == items.length

mutual

def mismatchAt? (path : List Nat) : Datum → Datum → Option Mismatch
  | list patterns, list items =>
    if acceptsAll patterns items then none
    else
      let inside := if isAligned patterns items then mismatchIn? path 0 patterns items else none
      inside.or (some ⟨path, list patterns, list items⟩)
  | array patterns, array items =>
    if acceptsAll patterns items then none
    else
      let inside := if isAligned patterns items then mismatchIn? path 0 patterns items else none
      inside.or (some ⟨path, array patterns, array items⟩)
  | pattern, datum => if pattern.accepts datum then none else some ⟨path, pattern, datum⟩

/-- The first difference between patterns and items, the first of which has the given
number. -/
def mismatchIn? (path : List Nat) : (index : Nat) → List Datum → List Datum → Option Mismatch
  | index, pattern :: patterns, item :: items =>
    (mismatchAt? (path ++ [index]) pattern item).or
      (mismatchIn? path (index + 1) patterns items)
  | _, _, _ => none

end

def mismatch? (pattern datum : Datum) : Option Mismatch :=
  mismatchAt? [] pattern datum

end ExprLang.Datum
