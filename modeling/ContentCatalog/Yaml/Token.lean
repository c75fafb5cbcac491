import ContentCatalog.Yaml.Mark

/-!
# Tokens

The tokens of a document: structure marks, properties of nodes, and scalars.
Where a block collection begins and ends is not written in the text but follows
from the indentation, so it has tokens of its own.
-/

namespace ContentCatalog.Yaml

/-- A directive at the head of a document. -/
inductive Directive where
  | version (major minor : Int)
  | handle (handle expansion : String)
  | other (name : String)

/-- What a token says. -/
inductive Token.Content where
  | streamStart
  | streamEnd
  | directive (directive : Directive)
  | documentStart
  | documentEnd
  | blockSequenceStart
  | blockMappingStart
  | blockEnd
  | flowSequenceStart
  | flowSequenceEnd
  | flowMappingStart
  | flowMappingEnd
  | blockEntry
  | flowEntry
  | key
  | value
  | alias (name : String)
  | anchor (name : String)
  | tag (handle : Option String) (suffix : String)
  | scalar (text : String) (plain : Bool)

/-- A token with the places where it starts and stops. -/
structure Token where
  content : Token.Content
  start : Mark
  stop : Mark

/-- The name of a token in reports. -/
def Token.Content.name : Token.Content → String
  | .streamStart => "<stream start>"
  | .streamEnd => "<stream end>"
  | .directive _ => "<directive>"
  | .documentStart => "<document start>"
  | .documentEnd => "<document end>"
  | .blockSequenceStart => "<block sequence start>"
  | .blockMappingStart => "<block mapping start>"
  | .blockEnd => "<block end>"
  | .flowSequenceStart => "["
  | .flowSequenceEnd => "]"
  | .flowMappingStart => "\x7b"
  | .flowMappingEnd => "\x7d"
  | .blockEntry => "-"
  | .flowEntry => ","
  | .key => "?"
  | .value => ":"
  | .alias _ => "<alias>"
  | .anchor _ => "<anchor>"
  | .tag .. => "<tag>"
  | .scalar .. => "<scalar>"

/-- A token that takes up no room. -/
def Token.at (content : Token.Content) (m : Mark) : Token :=
  ⟨content, m, m⟩

/-- Items in their order, and what prevents further ones, if anything does.
Whoever uses the items meets the failure only after the last of them. -/
structure Stream (Item Failure : Type) where
  items : List Item
  failure : Option Failure

end ContentCatalog.Yaml
