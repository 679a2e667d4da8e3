import ExprLang.Settings.Loading
import ExprLang.Yaml.Reader

/-!
# Settings in YAML and in the environment

Readers for settings, `Readers.standard`, with which the program can be tried out. Nothing else
depends on them: whatever is said about the program holds with any readers.

A settings document is a mapping from names of settings to scalars. A value that is null
leaves its setting alone, and any scalar can be a text. What does not fit is reported and the
other settings are taken over all the same, unless a key is repeated. A mapping can take over
the entries of others that it does not have itself.
-/

namespace ExprLang.Settings

inductive Target where
  | text
  | switch
  | settings
deriving DecidableEq, Repr

def Target.name : Target → String
  | text => "string"
  | switch => "bool"
  | settings => "config.Config"

inductive Misfit where
  | repeatedKey (line : Nat) (key : String) (firstLine : Nat)
  | repeatedSetting (line : Nat) (key : String)
  | unknownKey (line : Nat) (key : String)
  | wrongType (node : Yaml.Node) (target : Target)

/-- The text of a scalar as messages show it: of a long one only the first octets. -/
def shownScalar (text : String) : Bytes :=
  let bytes := Bytes.ofString text
  if 10 < bytes.length then bytes.take 7 ++ Bytes.ofString "..." else bytes

/-- How messages show a node: its tag, and its text unless the tag is that of a collection. -/
def shownNode (node : Yaml.Node) : Bytes :=
  Bytes.ofString node.tag.render ++
    if node.tag = .sequence ∨ node.tag = .mapping then []
    else Bytes.ofString " `" ++ shownScalar node.text ++ Bytes.ofString "`"

def Misfit.message : Misfit → Bytes
  | repeatedKey line key firstLine =>
    Bytes.ofString ("line " ++ Text.decimal line ++ ": mapping key " ++ Text.quote key ++
      " already defined at line " ++ Text.decimal firstLine)
  | repeatedSetting line key =>
    Bytes.ofString ("line " ++ Text.decimal line ++ ": field " ++ key ++
      " already set in type " ++ Target.settings.name)
  | unknownKey line key =>
    Bytes.ofString ("line " ++ Text.decimal line ++ ": field " ++ key ++ " not found in type " ++
      Target.settings.name)
  | wrongType node target =>
    Bytes.ofString ("line " ++ Text.decimal node.line ++ ": cannot unmarshal ") ++
      shownNode node ++ Bytes.ofString (" into " ++ target.name)

/-- Why a document is not, or not wholly, taken over. All but the last end the reading. -/
inductive DecodeError where
  | badSyntax (error : Yaml.SyntaxError)
  | badValue (error : Yaml.ValueError)
  | badMerge
  | selfReference (name : String)
  | misfits (found : List Misfit)

def DecodeError.message : DecodeError → Bytes
  | badSyntax error => Bytes.ofString error.message
  | badValue error => Bytes.ofString ("yaml: " ++ error.message)
  | badMerge =>
    Bytes.ofString "yaml: map merge requires map or sequence of maps as the value"
  | selfReference name => Bytes.ofString ("yaml: anchor '" ++ name ++ "' value contains itself")
  | misfits found =>
    Bytes.ofString "yaml: unmarshal errors:" ++
      found.flatMap fun misfit => Bytes.ofString "\n  " ++ misfit.message

/-! ## Steps -/

structure Draft where
  settings : Settings
  misfits : List Misfit

/-- A step of taking over settings. What was taken over before a failure stays. -/
abbrev Decode := ExceptT DecodeError (StateM Draft)

namespace Decode

def report (misfit : Misfit) : Decode Unit :=
  modify fun draft => { draft with misfits := draft.misfits ++ [misfit] }

def change (step : Settings → Settings) : Decode Unit :=
  modify fun draft => { draft with settings := step draft.settings }

def target (node : Yaml.Node) : Decode Yaml.Node :=
  match node with
  | .reference _ _ (some target) => return target
  | .reference _ name none => throw (.selfReference name)
  | node => return node

def repeats? (first second : Yaml.Node) : Option Misfit :=
  let isSameKind :=
    match first, second with
    | .scalar _ _ _, .scalar _ _ _ | .sequence _ _ _, .sequence _ _ _
    | .mapping _ _ _, .mapping _ _ _ | .reference _ _ _, .reference _ _ _ => true
    | _, _ => false
  if isSameKind && first.text == second.text then
    some (.repeatedKey second.line second.text first.line)
  else none

def repeatedKeys : List (Yaml.Node × Yaml.Node) → List Misfit
  | [] => []
  | entry :: rest => rest.filterMap (fun other => repeats? entry.1 other.1) ++ repeatedKeys rest

/-- Reports keys that are repeated, and goes on if there are none. -/
def unlessRepeated (entries : List (Yaml.Node × Yaml.Node)) (otherwise : α) (next : Decode α) :
    Decode α := do
  match repeatedKeys entries with
  | [] => next
  | misfits =>
    misfits.forM report
    return otherwise

/-! ## Values -/

def refuse (node : Yaml.Node) (wanted : Target) : Decode (Option α) :=
  match node with
  | .mapping _ _ entries =>
    unlessRepeated entries none do
      report (.wrongType node wanted)
      return none
  | node => do
    report (.wrongType node wanted)
    return none

def value (tag : Yaml.Tag) (text : String) : Decode Yaml.Value :=
  match Yaml.Value.ofScalar tag text with
  | .ok value => return value
  | .error error => throw (.badValue error)

/-- Reads a node as a text; null is no text. -/
def text (node : Yaml.Node) : Decode (Option String) := do
  let node ← target node
  match node with
  | .scalar _ tag content =>
    match ← value tag content with
    | .null => return none
    | .text content => return some content
    | _ => return some content
  | node => refuse node .text

def yesWords : List String :=
  ["y", "Y", "yes", "Yes", "YES", "on", "On", "ON"]

def noWords : List String :=
  ["n", "N", "no", "No", "NO", "off", "Off", "OFF"]

/-- Reads a node as a truth value; null is none. -/
def switch (node : Yaml.Node) : Decode (Option Bool) := do
  let node ← target node
  match node with
  | .scalar _ tag content =>
    match ← value tag content with
    | .null => return none
    | .truth value => return some value
    | .text content =>
      if yesWords.contains content then return some true
      else if noWords.contains content then return some false
      else refuse node .switch
    | _ => refuse node .switch
  | node => refuse node .switch

def setting (name : String) (node : Yaml.Node) : Decode Unit := do
  match TextSetting.all.find? fun setting => setting.name == name with
  | some setting => (← text node).forM fun value => change (·.setText setting value)
  | none => (← switch node).forM fun value => change ({ · with verbose := value })

def isSetting (name : String) : Bool :=
  name == "verbose" || TextSetting.all.any fun setting => setting.name == name

/-! ## Mappings -/

def isMerge : Yaml.Node → Bool
  | .scalar _ .merge text => text == "<<"
  | _ => false

def keyText? : Yaml.Node → Option String
  | .scalar _ tag text | .reference _ _ (some (.scalar _ tag text)) =>
    match Yaml.Value.ofScalar tag text with
    | .ok (.text text) => some text
    | _ => none
  | _ => none

/-- Takes over the entries of a mapping. `done` are the settings that the mapping has had already.
Where `seen` is given, the keys in it are passed over and others are added to it. -/
def entries (seen : Option (List String)) (done : List String) :
    List (Yaml.Node × Yaml.Node) → Decode (Option (List String))
  | [] => return seen
  | (key, value) :: rest => do
    if isMerge key then entries seen done rest
    else
      match ← text key with
      | none => entries seen done rest
      | some name =>
        if seen.any (·.contains name) then entries seen done rest
        else
          let seen := seen.map (name :: ·)
          if !isSetting name then
            report (.unknownKey key.line name)
            entries seen done rest
          else if done.contains name then
            report (.repeatedSetting key.line name)
            entries seen done rest
          else
            setting name value
            entries seen (name :: done) rest

/-- The node whose entries a mapping takes over, the last one if there are several. -/
def mergedNode? (pairs : List (Yaml.Node × Yaml.Node)) : Option Yaml.Node :=
  (pairs.filter fun entry => isMerge entry.1).getLast?.map Prod.snd

def isMapping : Yaml.Node → Bool
  | .mapping _ _ _ | .reference _ _ (some (.mapping _ _ _)) | .reference _ _ none => true
  | _ => false

def mergedNodes : Yaml.Node → List Yaml.Node
  | .sequence _ _ items => items
  | node => [node]

mutual

def mapping (seen : Option (List String)) (pairs : List (Yaml.Node × Yaml.Node)) :
    (fuel : Nat) → Decode (Option (List String))
  | 0 => return seen
  | fuel + 1 =>
    unlessRepeated pairs seen do
      let known ← entries seen [] pairs
      match mergedNode? pairs with
      | none => return known
      | some node =>
        let seen := known.getD (pairs.filterMap fun entry => keyText? entry.1)
        let seen ← merge seen (mergedNodes node) fuel
        return known.map fun _ => seen
termination_by structural fuel => fuel

/-- Takes over mappings one after the other. -/
def merge (seen : List String) (nodes : List Yaml.Node) : (fuel : Nat) → Decode (List String)
  | 0 => return seen
  | fuel + 1 =>
    match nodes with
    | [] => return seen
    | node :: nodes => do
      if !isMapping node then throw .badMerge
      match ← target node with
      | .mapping _ _ pairs => merge ((← mapping (some seen) pairs fuel).getD seen) nodes fuel
      | _ => merge seen nodes fuel
termination_by structural fuel => fuel

end

def document (node : Yaml.Node) (fuel : Nat) : Decode Unit := do
  match node with
  | .mapping _ _ pairs => discard (mapping none pairs fuel)
  | .scalar _ tag content =>
    if (← value tag content) ≠ .null then report (.wrongType node .settings)
  | node => report (.wrongType node .settings)

end Decode

/-- Takes over the settings in a text; those that fit are taken over even where others do
not. -/
def decodeText (settings : Settings) (text : Bytes) : Settings × Option DecodeError :=
  match Yaml.parse text with
  | .error error => (settings, some (.badSyntax error))
  | .ok none => (settings, none)
  | .ok (some node) =>
    match (Decode.document node (text.length + 1)).run ⟨settings, []⟩ with
    | (.error error, draft) => (draft.settings, some error)
    | (.ok (), ⟨settings, []⟩) => (settings, none)
    | (.ok (), ⟨settings, misfits⟩) => (settings, some (.misfits misfits))

/-! ## Environment variables -/

def affirmations : List String :=
  ["true", "yes", "enable", "enabled", "positive", "affirmative", "absolutely"]

/-- Whether the value of an environment variable switches something on: a single letter or
digit, or a word in lower case, with a capital or in capitals. -/
def isAffirmative (text : String) : Bool :=
  ["1", "t", "T", "y", "Y"].contains text ||
    affirmations.any fun word =>
      text == word || text == word.capitalize || text == word.toUpper

def variableValue? (environment : List (String × String)) (name : String) : Option String :=
  (environment.find? fun entry => entry.1 == name).bind fun entry =>
    if entry.2 == "" then none else some entry.2

def Readers.standard : Readers where
  decode settings document :=
    match document with
    | .error error =>
      (settings, some (.failed (Bytes.ofString ("yaml: input error: " ++ error.message))))
    | .ok text =>
      match settings.decodeText text with
      | (settings, error) => (settings, error.map fun error => .failed error.message)
  text? := variableValue?
  isTrue environment name := (variableValue? environment name).any isAffirmative

end ExprLang.Settings
