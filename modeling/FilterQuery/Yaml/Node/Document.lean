import FilterQuery.Yaml.Node.OfTokens
/-!
# Documents

A stream is a sequence of documents.  The first may begin without a marker; every
other begins with one, after its directives.  A document without content is an
empty node.
-/

namespace FilterQuery.Yaml

/-- Reads the directives before a document.  The version may be given once and must
be one that is supported; a handle may be given once. -/
def directives (versioned : Bool) (handles : Handles) :
    List Token → Option (Handles × List Token)
  | .directive (.version major minor) :: rest =>
      if versioned ∨ major ≠ 1 ∨ (minor ≠ 1 ∧ minor ≠ 2) then none
      else directives true handles rest
  | .directive (.tag handle start) :: rest =>
      if handles.any (·.1 == handle) then none
      else directives versioned ((handle, start) :: handles) rest
  | rest => some (handles ++ defaultHandles, rest)

def bordersDocument : Token → Bool
  | .directive _ | .documentStart | .documentEnd => true
  | _ => false

def content (handles : Handles) (tokens : List Token) :
    Option (Node String × List Token) := do
  if tokens.head?.all bordersDocument then
    return (.empty, tokens)
  let (root, ⟨rest, _⟩) ← node handles true false tokens
  return (root, rest)

def explicitDocument (tokens : List Token) : Option (Node String × List Token) := do
  let (handles, rest) ← directives false [] tokens
  match rest with
  | .documentStart :: rest => content handles rest
  | _ => none

/-- Reads a document.  The first needs no marker, unless directives precede it. -/
def document (first : Bool) (tokens : List Token) : Option (Node String × List Token) :=
  let marked := tokens.head?.any fun token => token ≠ .documentEnd && bordersDocument token
  if first ∧ !marked then do
    let (root, ⟨rest, _⟩) ← node defaultHandles true false tokens
    return (root, rest)
  else explicitDocument tokens

def behindEnd : List Token → List Token
  | .documentEnd :: rest => rest
  | rest => rest

/-- The documents of a stream.  Markers of an end before a later document do not
count. -/
def documents (first : Bool) (tokens : List Token) : Option (List (Node String)) := do
  let here := if first then tokens else tokens.dropWhile (· = .documentEnd)
  if here.isEmpty then
    return []
  let (root, rest) ← document first here
  if (behindEnd rest).length < tokens.length then
    return root :: (← documents false (behindEnd rest))
  else none
termination_by tokens.length

end FilterQuery.Yaml
