/-!
# Characters of a YAML stream

The classes of characters that the syntax of YAML tells apart.
-/

namespace FilterQuery.Yaml

def isBreak (c : Char) : Bool :=
  c = '\n' || c = '\x0d' || c = '\u0085' || c = '\u2028' || c = '\u2029'

/-- The character that a line end contributes to a text: a line feed for all but
the two separators of Unicode. -/
def lineFeed (c : Char) : Char :=
  if c = '\u2028' ∨ c = '\u2029' then c else '\n'

def isSpace (c : Char) : Bool :=
  c = ' ' || c = '\t'

def isGap (c : Char) : Bool :=
  isSpace c || isBreak c

def endsWord (text : List Char) : Bool :=
  text.head?.all isGap

def isWord (c : Char) : Bool :=
  c.isAlphanum || c = '_' || c = '-'

def isTagChar (c : Char) : Bool :=
  isWord c || c ∈ [';', '/', '?', ':', '@', '&', '=', '+', '$', '.', '%', '!', '~', '*',
    '\'', '(', ')']

/-- Whether a character separates or encloses the items of a flow collection. -/
def isFlowIndicator (c : Char) : Bool :=
  c ∈ [',', '[', ']', '\x7b', '\x7d']

def isAllowed (c : Char) : Bool :=
  let n := c.toNat
  c = '\t' || c = '\n' || c = '\x0d' || (0x20 ≤ n && n ≤ 0x7e) || n = 0x85 ||
    (0xa0 ≤ n && n ≤ 0xd7ff) || (0xe000 ≤ n && n ≤ 0xfffd) || 0x10000 ≤ n

/-- Whether a line begins with the marker that starts or ends a document. -/
def atMarker (text : List Char) : Bool :=
  match text with
  | '-' :: '-' :: '-' :: rest => endsWord rest
  | '.' :: '.' :: '.' :: rest => endsWord rest
  | _ => false

end FilterQuery.Yaml
