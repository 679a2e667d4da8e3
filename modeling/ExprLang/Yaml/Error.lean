import ExprLang.Text.Decimal

/-!
# Errors in YAML texts

A text can be wrong in its octets, in the tokens that its characters form, and in the
arrangement of the tokens. The first fault that is found ends the reading.
-/

namespace ExprLang.Yaml

inductive OctetProblem where
  | leadingOctet
  | incompleteSequence
  | trailingOctet
  | sequenceLength
  | notCharacter
  | incompleteUnit
  | lowSurrogate
  | incompletePair
  | noLowSurrogate
  | control
deriving DecidableEq, Repr

def OctetProblem.message : OctetProblem → String
  | leadingOctet => "invalid leading UTF-8 octet"
  | incompleteSequence => "incomplete UTF-8 octet sequence"
  | trailingOctet => "invalid trailing UTF-8 octet"
  | sequenceLength => "invalid length of a UTF-8 sequence"
  | notCharacter => "invalid Unicode character"
  | incompleteUnit => "incomplete UTF-16 character"
  | lowSurrogate => "unexpected low surrogate area"
  | incompletePair => "incomplete UTF-16 surrogate pair"
  | noLowSurrogate => "expected low surrogate area"
  | control => "control characters are not allowed"

inductive TokenProblem where
  | badStart
  | tabInScalar
  | tabInBlock
  | valueNotAllowed
  | keyNotAllowed
  | entryNotAllowed
  | missingColon
  | endInScalar
  | documentInScalar
  | unknownEscape
  | badNumberEscape
  | badCharacterEscape
  | zeroIndentation
  | badLineEnd
  | badName
  | badTagEnd
  | missingTagMark
  | missingTag
  | missingTagClose
  | badTagEscape
  | badTagOctet
  | missingDirective
  | badDirective
  | unknownDirective
  | missingVersion
  | longVersion
  | missingVersionPoint
  | missingBlank
deriving DecidableEq, Repr

def TokenProblem.message : TokenProblem → String
  | badStart => "found character that cannot start any token"
  | tabInScalar => "found a tab character that violates indentation"
  | tabInBlock => "found a tab character where an indentation space is expected"
  | valueNotAllowed => "mapping values are not allowed in this context"
  | keyNotAllowed => "mapping keys are not allowed in this context"
  | entryNotAllowed => "block sequence entries are not allowed in this context"
  | missingColon => "could not find expected ':'"
  | endInScalar => "found unexpected end of stream"
  | documentInScalar => "found unexpected document indicator"
  | unknownEscape => "found unknown escape character"
  | badNumberEscape => "did not find expected hexdecimal number"
  | badCharacterEscape => "found invalid Unicode character escape code"
  | zeroIndentation => "found an indentation indicator equal to 0"
  | badLineEnd => "did not find expected comment or line break"
  | badName => "did not find expected alphabetic or numeric character"
  | badTagEnd => "did not find expected whitespace or line break"
  | missingTagMark => "did not find expected '!'"
  | missingTag => "did not find expected tag URI"
  | missingTagClose => "did not find the expected '>'"
  | badTagEscape => "did not find URI escaped octet"
  | badTagOctet => "found an incorrect leading UTF-8 octet"
  | missingDirective => "could not find expected directive name"
  | badDirective => "found unexpected non-alphabetical character"
  | unknownDirective => "found unknown directive name"
  | missingVersion => "did not find expected version number"
  | longVersion => "found extremely long version number"
  | missingVersionPoint => "did not find expected digit or '.' character"
  | missingBlank => "did not find expected whitespace"

inductive NodeProblem where
  | missingDocument
  | repeatedVersion
  | otherVersion
  | repeatedHandle
  | unknownHandle
  | missingNode
  | missingItem
  | missingKey
  | unclosedSequence
  | unclosedMapping
deriving DecidableEq, Repr

def NodeProblem.message : NodeProblem → String
  | missingDocument => "did not find expected <document start>"
  | repeatedVersion => "found duplicate %YAML directive"
  | otherVersion => "found incompatible YAML document"
  | repeatedHandle => "found duplicate %TAG directive"
  | unknownHandle => "found undefined tag handle"
  | missingNode => "did not find expected node content"
  | missingItem => "did not find expected '-' indicator"
  | missingKey => "did not find expected key"
  | unclosedSequence => "did not find expected ',' or ']'"
  | unclosedMapping => "did not find expected ',' or '\x7d'"

/-- Why a text is no document. Two lines are noted, both counted from zero: that of the
construct that is wrong and that of the place where the fault shows. -/
inductive SyntaxError where
  | octets (problem : OctetProblem)
  | tokens (problem : TokenProblem) (context place : Nat)
  | nodes (problem : NodeProblem) (context place : Nat)
  | unknownAnchor (name : String)
deriving DecidableEq, Repr

namespace SyntaxError

/-- The line that a message names. The first line is never named, and lines are counted from
`start` on. -/
def lineText (start context place : Nat) : String :=
  let line := if context = 0 then place else context
  if line = 0 then "" else "line " ++ Text.decimal (line + start) ++ ": "

/-- The whole message. Lines are counted from one only for faults in the tokens. -/
def message : SyntaxError → String
  | octets problem => "yaml: " ++ problem.message
  | tokens problem context place => "yaml: " ++ lineText 1 context place ++ problem.message
  | nodes problem context place => "yaml: " ++ lineText 0 context place ++ problem.message
  | unknownAnchor name => "yaml: unknown anchor '" ++ name ++ "' referenced"

end SyntaxError

end ExprLang.Yaml
