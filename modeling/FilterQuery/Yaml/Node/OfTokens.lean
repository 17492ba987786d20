import FilterQuery.Yaml.Node.Basic
/-!
# Nodes from tokens

The grammar of nodes, by recursive descent.  Each reader gives what it read with
the tokens after it; reading a node takes at least one token, and that is why the
readers end.
-/

namespace FilterQuery.Yaml

/-- The tokens after something that takes at least one of them. -/
abbrev Shorter (tokens : List Token) : Type :=
  { rest : List Token // rest.length < tokens.length }

/-- The tokens after something that may take none of them. -/
abbrev NoLonger (tokens : List Token) : Type :=
  { rest : List Token // rest.length ≤ tokens.length }

abbrev Handles := List (String × Tag)

def defaultHandles : Handles :=
  [("!", .ofText "!"), ("!!", .core "")]

def Handles.resolve (handles : Handles) (tag : TagToken) : Option Tag :=
  if tag.handle.isEmpty then some tag.suffix
  else (handles.lookup tag.handle).map fun start => ⟨start.chars ++ tag.suffix.chars⟩

structure Properties where
  anchor : Option String := none
  tag : Option TagToken := none

def properties (tokens : List Token) : Properties × NoLonger tokens :=
  match tokens with
  | .anchor a :: .tag t :: rest => (⟨some a, some t⟩, ⟨rest, by simp; omega⟩)
  | .tag t :: .anchor a :: rest => (⟨some a, some t⟩, ⟨rest, by simp; omega⟩)
  | .anchor a :: rest => ({ anchor := some a }, ⟨rest, by simp⟩)
  | .tag t :: rest => ({ tag := some t }, ⟨rest, by simp⟩)
  | rest => ({}, ⟨rest, by simp⟩)

def behindComma (first : Bool) (tokens : List Token) : Option (NoLonger tokens) :=
  if first then some ⟨tokens, by simp⟩
  else
    match tokens with
    | .flowEntry :: rest => some ⟨rest, by simp⟩
    | _ => none

/-- Whether a token can follow a key or a value of a block mapping that is absent. -/
def closesBlock (token : Token) : Bool :=
  token ∈ [.key, .value, .blockEnd]

theorem lex_lt {m n i j : Nat} (h : m < n ∨ m ≤ n ∧ i < j) :
    Prod.Lex (· < ·) (· < ·) (m, i) (n, j) :=
  Prod.lex_def.2 (by omega)

mutual

/-- Reads a node.  Block collections may stand only in block context, a sequence
without indentation only as a value of a block mapping. -/
def node (handles : Handles) (block indentless : Bool) (tokens : List Token) :
    Option (Node String × Shorter tokens) :=
  match tokens with
  | .aliasOf name :: rest => some (.aliasOf name, ⟨rest, by simp⟩)
  | tokens => do
      let (⟨anchor, given⟩, ⟨content, hcontent⟩) := properties tokens
      let tag ← given.mapM handles.resolve
      let absent : Option (Node String × Shorter tokens) :=
        if hrest : content.length < tokens.length then
          some (.scalar anchor tag .plain "", ⟨content, hrest⟩)
        else none
      match content, hcontent with
      | .scalar style text :: rest, h =>
          return (.scalar anchor tag style text, ⟨rest, h⟩)
      | .flowSequenceStart :: rest, h =>
          let (items, ⟨last, hlast⟩) ← flowSequence handles true rest
          return (.sequence anchor tag items, ⟨last, Nat.lt_trans hlast h⟩)
      | .flowMappingStart :: rest, h =>
          let (entries, ⟨last, hlast⟩) ← flowMapping handles true rest
          return (.mapping anchor tag entries, ⟨last, Nat.lt_trans hlast h⟩)
      | .blockSequenceStart :: rest, h =>
          if !block then absent
          else
            let (items, ⟨last, hlast⟩) ← blockSequence handles rest
            return (.sequence anchor tag items, ⟨last, Nat.lt_trans hlast h⟩)
      | .blockMappingStart :: rest, h =>
          if !block then absent
          else
            let (entries, ⟨last, hlast⟩) ← blockMapping handles rest
            return (.mapping anchor tag entries, ⟨last, Nat.lt_trans hlast h⟩)
      | .blockEntry :: rest, h =>
          if !indentless then absent
          else
            let (items, ⟨last, hlast⟩) ← indentlessSequence handles (.blockEntry :: rest)
            if hshort : last.length < tokens.length then
              return (.sequence anchor tag items, ⟨last, hshort⟩)
            else none
      | _, _ => absent
termination_by (tokens.length, 1)
decreasing_by all_goals exact lex_lt (by grind)

/-- Reads a node that may be absent: then a token that closes its place follows. -/
def optionalNode (handles : Handles) (block indentless : Bool) (closes : Token → Bool)
    (tokens : List Token) : Option (Node String × NoLonger tokens) := do
  if tokens.head?.any closes then
    return (.empty, ⟨tokens, by simp⟩)
  let (item, ⟨rest, hrest⟩) ← node handles block indentless tokens
  return (item, ⟨rest, by omega⟩)
termination_by (tokens.length, 2)

def entryValue (handles : Handles) (block : Bool) (closes : Token → Bool)
    (tokens : List Token) : Option (Node String × NoLonger tokens) :=
  match tokens with
  | .value :: rest => do
      let (value, ⟨last, hlast⟩) ← optionalNode handles block block closes rest
      return (value, ⟨last, by simp; omega⟩)
  | rest => some (.empty, ⟨rest, by simp⟩)
termination_by (tokens.length, 3)

def blockSequence (handles : Handles) (tokens : List Token) :
    Option (List (Node String) × Shorter tokens) :=
  match tokens with
  | .blockEnd :: rest => some ([], ⟨rest, by simp⟩)
  | .blockEntry :: rest => do
      let closes (token : Token) : Bool := token ∈ [.blockEntry, .blockEnd]
      let (item, ⟨next, hnext⟩) ← optionalNode handles true false closes rest
      let (items, ⟨last, hlast⟩) ← blockSequence handles next
      return (item :: items, ⟨last, by simp; omega⟩)
  | _ => none
termination_by (tokens.length, 3)
decreasing_by all_goals exact lex_lt (by grind)

def indentlessSequence (handles : Handles) (tokens : List Token) :
    Option (List (Node String) × NoLonger tokens) :=
  match tokens with
  | .blockEntry :: rest => do
      let closes (token : Token) : Bool := token = .blockEntry || closesBlock token
      let (item, ⟨next, hnext⟩) ← optionalNode handles true false closes rest
      let (items, ⟨last, hlast⟩) ← indentlessSequence handles next
      return (item :: items, ⟨last, by simp; omega⟩)
  | rest => some ([], ⟨rest, by simp⟩)
termination_by (tokens.length, 0)
decreasing_by all_goals exact lex_lt (by grind)

def blockMapping (handles : Handles) (tokens : List Token) :
    Option (List (Node String × Node String) × Shorter tokens) :=
  match tokens with
  | .blockEnd :: rest => some ([], ⟨rest, by simp⟩)
  | .key :: rest => do
      let (key, ⟨next, hnext⟩) ← optionalNode handles true true closesBlock rest
      let (value, ⟨last, hlast⟩) ← entryValue handles true closesBlock next
      let (entries, ⟨final, hfinal⟩) ← blockMapping handles last
      return ((key, value) :: entries, ⟨final, by simp; omega⟩)
  | _ => none
termination_by (tokens.length, 4)
decreasing_by all_goals exact lex_lt (by grind)

/-- Reads the key of a pair that stands as an item of a flow sequence.  One that is
absent takes the token after it. -/
def pairKey (handles : Handles) (tokens : List Token) :
    Option (Node String × NoLonger tokens) :=
  match tokens with
  | .value :: rest | .flowEntry :: rest | .flowSequenceEnd :: rest =>
      some (.empty, ⟨rest, by simp⟩)
  | tokens => do
      let (key, ⟨rest, hrest⟩) ← node handles false false tokens
      return (key, ⟨rest, by omega⟩)
termination_by (tokens.length, 2)

/-- Reads an item of a flow sequence: a node, or a pair, which is a mapping of one
entry. -/
def flowItem (handles : Handles) (tokens : List Token) :
    Option (Node String × Shorter tokens) :=
  match tokens with
  | .key :: rest => do
      let closes (token : Token) : Bool := token ∈ [.flowEntry, .flowSequenceEnd]
      let (key, ⟨next, hnext⟩) ← pairKey handles rest
      let (value, ⟨last, hlast⟩) ← entryValue handles false closes next
      return (.mapping none none [(key, value)], ⟨last, by simp; omega⟩)
  | tokens => node handles false false tokens
termination_by (tokens.length, 4)
decreasing_by all_goals exact lex_lt (by grind)

def flowSequence (handles : Handles) (first : Bool) (tokens : List Token) :
    Option (List (Node String) × Shorter tokens) :=
  match tokens with
  | .flowSequenceEnd :: rest => some ([], ⟨rest, by simp⟩)
  | tokens => do
      let ⟨here, hhere⟩ ← behindComma first tokens
      match here, hhere with
      | .flowSequenceEnd :: rest, h => return ([], ⟨rest, h⟩)
      | here, h =>
          let (item, ⟨next, hnext⟩) ← flowItem handles here
          let (items, ⟨last, hlast⟩) ← flowSequence handles false next
          return (item :: items, ⟨last, by omega⟩)
termination_by (tokens.length, 5)
decreasing_by all_goals exact lex_lt (by grind)

def flowEntry (handles : Handles) (tokens : List Token) :
    Option ((Node String × Node String) × Shorter tokens) :=
  match tokens with
  | .key :: rest => do
      let ends (token : Token) : Bool := token ∈ [.flowEntry, .flowMappingEnd]
      let closes (token : Token) : Bool := token = .value || ends token
      let (key, ⟨next, hnext⟩) ← optionalNode handles false false closes rest
      let (value, ⟨last, hlast⟩) ← entryValue handles false ends next
      return ((key, value), ⟨last, by simp; omega⟩)
  | tokens => do
      let (key, rest) ← node handles false false tokens
      return ((key, .empty), rest)
termination_by (tokens.length, 4)
decreasing_by all_goals exact lex_lt (by grind)

def flowMapping (handles : Handles) (first : Bool) (tokens : List Token) :
    Option (List (Node String × Node String) × Shorter tokens) :=
  match tokens with
  | .flowMappingEnd :: rest => some ([], ⟨rest, by simp⟩)
  | tokens => do
      let ⟨here, hhere⟩ ← behindComma first tokens
      match here, hhere with
      | .flowMappingEnd :: rest, h => return ([], ⟨rest, h⟩)
      | here, h =>
          let (entry, ⟨next, hnext⟩) ← flowEntry handles here
          let (entries, ⟨last, hlast⟩) ← flowMapping handles false next
          return (entry :: entries, ⟨last, by omega⟩)
termination_by (tokens.length, 5)
decreasing_by all_goals exact lex_lt (by grind)

end

end FilterQuery.Yaml
