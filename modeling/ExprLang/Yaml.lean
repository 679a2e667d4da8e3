/-!
# YAML

The tree of a YAML document. Every node has the line on which it starts and a tag, which says
what kind of value it stands for. An alias stands for a node that was given a name before.
-/

namespace ExprLang.Yaml

inductive Tag where
  | null
  | bool
  | int
  | float
  | timestamp
  | string
  | binary
  | merge
  | sequence
  | mapping
  | other (name : String)
deriving DecidableEq, Repr

namespace Tag

def render : Tag → String
  | null => "!!null"
  | bool => "!!bool"
  | int => "!!int"
  | float => "!!float"
  | timestamp => "!!timestamp"
  | string => "!!str"
  | binary => "!!binary"
  | merge => "!!merge"
  | sequence => "!!seq"
  | mapping => "!!map"
  | other name => name

def listed : List Tag :=
  [null, bool, int, float, timestamp, string, binary, merge, sequence, mapping]

def ofName (name : String) : Tag :=
  (listed.find? fun tag => tag.render == name).getD (other name)

def namespaceText : String :=
  "tag:yaml.org,2002:"

def ofFullName (name : String) : Tag :=
  if name.startsWith namespaceText then
    ofName ("!!" ++ String.ofList (name.toList.drop namespaceText.length))
  else ofName name

end Tag

/-- A node. An alias inside of the very node that it names has no target. -/
inductive Node where
  | scalar (line : Nat) (tag : Tag) (text : String)
  | sequence (line : Nat) (tag : Tag) (items : List Node)
  | mapping (line : Nat) (tag : Tag) (entries : List (Node × Node))
  | reference (line : Nat) (name : String) (target : Option Node)
deriving Repr, Inhabited

namespace Node

def line : Node → Nat
  | scalar line _ _ | sequence line _ _ | mapping line _ _ | reference line _ _ => line

/-- The tag of a node; an alias has none of its own. -/
def tag : Node → Tag
  | scalar _ tag _ | sequence _ tag _ | mapping _ tag _ => tag
  | reference _ _ _ => .null

/-- The text that a node has of its own. Collections have none, and that of an alias is the
name which it refers to. -/
def text : Node → String
  | scalar _ _ text => text
  | reference _ name _ => name
  | sequence _ _ _ | mapping _ _ _ => ""

end Node

end ExprLang.Yaml
