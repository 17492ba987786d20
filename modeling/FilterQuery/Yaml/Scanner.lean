import FilterQuery.Yaml.Token
import FilterQuery.Yaml.Plain
import FilterQuery.Yaml.Quoted
import FilterQuery.Yaml.Block
/-!
# The tokens of a stream

Tokens are read from left to right.  Two things are known only later: that a block
collection ends, when a line is indented less, and that a node was a key, when a
colon follows it.  So the columns of the open block collections are kept, and at
each flow level the place where a key may have begun; a colon puts the key token
back there.  A key without an indicator stands on one line and takes at most 1024 octets
with what precedes its colon.
-/

namespace FilterQuery.Yaml

/-- A node that may turn out to be a key. -/
structure PossibleKey where
  /-- whether it has to be a key, standing where the entries of a block do -/
  required : Bool
  /-- the number of tokens before it -/
  index : Nat
  position : Position

/-- What is known after the tokens read so far. -/
structure Scan where
  cursor : Cursor
  tokens : Array Token := #[]
  /-- the column from which content belongs to the innermost block collection -/
  margin : Nat := 0
  /-- the margins of the block collections around it -/
  margins : List Nat := []
  /-- the possible key of the innermost flow level -/
  possible : Option PossibleKey := none
  /-- the possible keys of the flow levels around it -/
  outer : List (Option PossibleKey) := []
  /-- whether a key may begin here -/
  keyAllowed : Bool := true

namespace Scan

def inFlow (scan : Scan) : Bool :=
  !scan.outer.isEmpty

def push (scan : Scan) (token : Token) : Scan :=
  { scan with tokens := scan.tokens.push token }

def take (scan : Scan) (count : Nat) (token : Token) : Scan :=
  { scan.push token with cursor := scan.cursor.advance count }

def closeTo (scan : Scan) (margin : Nat) : Scan :=
  if scan.inFlow then scan
  else
    let closed := (scan.margin :: scan.margins).takeWhile (margin < ·)
    match (scan.margin :: scan.margins).drop closed.length with
    | inner :: around =>
        { scan with
          tokens := scan.tokens ++ Array.replicate closed.length .blockEnd
          margin := inner, margins := around }
    | [] => scan

/-- Opens a block collection at a column, unless one is open there; its token goes
before the tokens from `index` on. -/
def openAt (scan : Scan) (column index : Nat) (token : Token) : Scan :=
  if scan.inFlow ∨ column < scan.margin then scan
  else
    { scan with
      tokens := scan.tokens.insertIdxIfInBounds index token
      margin := column + 1, margins := scan.margin :: scan.margins }

/-- Gives up the possible key of this level.  One that is required must not go. -/
def dropKey (scan : Scan) : Option Scan :=
  if scan.possible.any (·.required) then none else some { scan with possible := none }

def noteKey (scan : Scan) : Option Scan :=
  if scan.keyAllowed then do
    let position := scan.cursor.position
    let required := !scan.inFlow && scan.margin = position.column + 1
    let scan ← scan.dropKey
    return { scan with possible := some ⟨required, scan.tokens.size, position⟩ }
  else some scan

def isStale (position : Position) (key : PossibleKey) : Bool :=
  key.position.line < position.line || key.position.offset + 1024 < position.offset

def dropStale (scan : Scan) : Option Scan :=
  let stale := isStale scan.cursor.position
  if (scan.possible :: scan.outer).any (·.any fun key => stale key && key.required) then none
  else
    let fresh := Option.filter (!stale ·)
    some { scan with possible := fresh scan.possible, outer := scan.outer.map fresh }

/-- Skips blanks, comments and line ends.  Tabs are skipped where no key may begin; a
line end allows one in block context.  A byte order mark may begin a line, and takes
a column of it. -/
def skipLayout (inFlow : Bool) (position : Position) (keyAllowed comment : Bool) :
    List Char → Cursor × Bool
  | [] => (⟨[], position⟩, keyAllowed)
  | '\x0d' :: '\n' :: rest =>
      skipLayout inFlow (position.nextLine ['\x0d', '\n']) (keyAllowed || !inFlow) false rest
  | c :: rest =>
      if isBreak c then
        skipLayout inFlow (position.nextLine [c]) (keyAllowed || !inFlow) false rest
      else if comment ∨ c = ' ' ∨ (c = '\t' ∧ (inFlow ∨ !keyAllowed)) ∨
          (c = '\ufeff' ∧ position.column = 0) then
        skipLayout inFlow (position.pass [c]) keyAllowed comment rest
      else if c = '#' then
        skipLayout inFlow (position.pass [c]) keyAllowed true rest
      else (⟨c :: rest, position⟩, keyAllowed)

def toNext (scan : Scan) : Option Scan := do
  let (cursor, keyAllowed) :=
    skipLayout scan.inFlow scan.cursor.position scan.keyAllowed false scan.cursor.rest
  let scan ← { scan with cursor, keyAllowed }.dropStale
  return scan.closeTo (cursor.position.column + 1)

def closeAll (scan : Scan) : Option Scan := do
  let scan ← (scan.closeTo 0).dropKey
  return { scan with keyAllowed := false }

def directive (scan : Scan) : Option Scan := do
  let scan ← scan.closeAll
  let (directive, cursor) ← directive? scan.cursor
  return { scan.push (.directive directive) with cursor }

def openFlow (scan : Scan) (token : Token) : Option Scan := do
  let scan ← scan.noteKey
  return { scan.take 1 token with
    possible := none, outer := scan.possible :: scan.outer, keyAllowed := true }

def closeFlow (scan : Scan) (token : Token) : Option Scan := do
  let scan ← scan.dropKey
  let scan := { scan.take 1 token with keyAllowed := false }
  match scan.outer with
  | possible :: outer => return { scan with possible, outer }
  | [] => return scan

def flowEntry (scan : Scan) : Option Scan := do
  let scan ← scan.dropKey
  return { scan.take 1 .flowEntry with keyAllowed := true }

def blockEntry (scan : Scan) : Option Scan := do
  if !scan.inFlow ∧ !scan.keyAllowed then none
  let column := scan.cursor.position.column
  let scan ← (scan.openAt column scan.tokens.size .blockSequenceStart).dropKey
  return { scan.take 1 .blockEntry with keyAllowed := true }

def key (scan : Scan) : Option Scan := do
  if !scan.inFlow ∧ !scan.keyAllowed then none
  let column := scan.cursor.position.column
  let scan ← (scan.openAt column scan.tokens.size .blockMappingStart).dropKey
  return { scan.take 1 .key with keyAllowed := !scan.inFlow }

/-- Reads the colon before a value.  Where a key may have begun, it did. -/
def value (scan : Scan) : Option Scan :=
  match scan.possible with
  | some key =>
      let tokens := scan.tokens.insertIdxIfInBounds key.index .key
      let scan := { scan with tokens, possible := none, keyAllowed := false }
      some ((scan.openAt key.position.column key.index .blockMappingStart).take 1 .value)
  | none => do
      if !scan.inFlow ∧ !scan.keyAllowed then none
      let column := scan.cursor.position.column
      let scan := scan.openAt column scan.tokens.size .blockMappingStart
      return { scan.take 1 .value with keyAllowed := !scan.inFlow }

def name (scan : Scan) (token : String → Token) : Option Scan := do
  let scan ← scan.noteKey
  let cursor := scan.cursor.advance 1
  let word := cursor.takeWhile isWord
  let next := cursor.advance word.length
  let closes := ['?', ':', ',', ']', '\x7d', '%', '@', '\x60']
  if word.isEmpty ∨ !(endsWord next.rest || next.rest.head?.any (· ∈ closes)) then none
  return { scan.push (token (String.ofList word)) with cursor := next, keyAllowed := false }

def tag (scan : Scan) : Option Scan := do
  let scan ← scan.noteKey
  let (tag, cursor) ← Yaml.tag scan.inFlow scan.cursor
  return { scan.push (.tag tag) with cursor, keyAllowed := false }

def block (scan : Scan) (folded : Bool) : Option Scan := do
  let scan ← scan.dropKey
  let (text, cursor) ← blockText folded scan.margin (scan.cursor.advance 1)
  let style := if folded then .folded else .literal
  return { scan.push (.scalar style (String.ofList text)) with cursor, keyAllowed := true }

def quoted (scan : Scan) (double : Bool) : Option Scan := do
  let scan ← scan.noteKey
  let (text, cursor) ← quotedText double (scan.cursor.advance 1)
  return { scan.push (.scalar .quoted (String.ofList text)) with cursor, keyAllowed := false }

def plain (scan : Scan) : Option Scan := do
  let scan ← scan.noteKey
  let (text, broken, cursor) ← plainText scan.inFlow scan.margin {} scan.cursor
  return { scan.push (.scalar .plain (String.ofList text)) with
    cursor, keyAllowed := broken }

def startsPlain (inFlow : Bool) (c : Char) (rest : List Char) : Bool :=
  if c = '-' then !rest.head?.any isSpace
  else if c = '?' ∨ c = ':' then !inFlow && !endsWord rest
  else !isGap c && !isFlowIndicator c &&
    c ∉ ['#', '&', '*', '!', '|', '>', '\'', '"', '%', '@', '\x60']

def token (scan : Scan) (c : Char) (rest : List Char) : Option Scan :=
  let inFlow := scan.inFlow
  let lineStart := scan.cursor.position.column = 0
  if lineStart ∧ c = '%' then scan.directive
  else if lineStart ∧ atMarker (c :: rest) then do
    let scan ← scan.closeAll
    return scan.take 3 (if c = '-' then .documentStart else .documentEnd)
  else if c = '[' then scan.openFlow .flowSequenceStart
  else if c = '\x7b' then scan.openFlow .flowMappingStart
  else if c = ']' then scan.closeFlow .flowSequenceEnd
  else if c = '\x7d' then scan.closeFlow .flowMappingEnd
  else if c = ',' then scan.flowEntry
  else if c = '-' ∧ endsWord rest then scan.blockEntry
  else if c = '?' ∧ (inFlow ∨ endsWord rest) then scan.key
  else if c = ':' ∧ (inFlow ∨ endsWord rest) then scan.value
  else if c = '*' then scan.name .aliasOf
  else if c = '&' then scan.name .anchor
  else if c = '!' then scan.tag
  else if c = '|' ∧ !inFlow then scan.block false
  else if c = '>' ∧ !inFlow then scan.block true
  else if c = '\'' then scan.quoted false
  else if c = '"' then scan.quoted true
  else if startsPlain inFlow c rest then scan.plain
  else none

def run (scan : Scan) : Option (List Token) := do
  let here ← scan.toNext
  match here.cursor.rest with
  | [] => return (← here.closeAll).tokens.toList
  | c :: rest =>
      let next ← here.token c rest
      if next.cursor.rest.length < scan.cursor.rest.length then next.run else none
termination_by scan.cursor.rest.length

end Scan

/-- The tokens of a stream; nothing, where its text is not well formed. -/
def tokens? (text : String) : Option (List Token) :=
  if text.toList.all isAllowed then Scan.run { cursor := { rest := text.toList } } else none

end FilterQuery.Yaml
