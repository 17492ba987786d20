import FilterQuery.Yaml.Directive
/-!
# Tokens

The tokens of a YAML stream.  The structure of block collections, which the text
shows by indentation, is explicit in them.
-/

namespace FilterQuery.Yaml

inductive Style where
  | plain
  | quoted
  | literal
  | folded
deriving DecidableEq

inductive Token where
  | directive (directive : Directive)
  | documentStart
  | documentEnd
  | blockSequenceStart
  | blockMappingStart
  | blockEnd
  | flowSequenceStart
  | flowSequenceEnd
  | flowMappingStart
  | flowMappingEnd
  | blockEntry
  | flowEntry
  | key
  | value
  | aliasOf (name : String)
  | anchor (name : String)
  | tag (tag : TagToken)
  | scalar (style : Style) (text : String)
deriving DecidableEq

end FilterQuery.Yaml
