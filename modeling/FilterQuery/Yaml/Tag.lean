import FilterQuery.Yaml.Cursor
import FilterQuery.Decimal.Integer
/-!
# Tags

A tag is written in full between angle brackets, or as a handle and a suffix.  A
handle stands for the beginning that a directive gives it.  Octets of a tag may be
escaped with a percent sign; an escaped zero ends the tag, and octets of the right
form need not be a character.
-/

namespace FilterQuery.Yaml

/-- A tag.  Escaped octets that are no character stand in it as nothing. -/
structure Tag where
  chars : List (Option Char)
deriving DecidableEq

namespace Tag

def ofText (text : String) : Tag :=
  ⟨text.toList.map some⟩

def core (kind : String) : Tag :=
  ofText ("tag:yaml.org,2002:" ++ kind)

/-- The tag of characters, which an escaped zero ends. -/
def ofChars (chars : List (Option Char)) : Tag :=
  ⟨chars.takeWhile (· ≠ some '\x00')⟩

def text? (tag : Tag) : Option String :=
  (tag.chars.mapM id).map String.ofList

def isLocal (tag : Tag) : Bool :=
  tag.chars.head? = some (some '!')

def unmarked : List Char → List Char
  | '!' :: c :: rest => c :: rest
  | name => name

/-- The name of a local tag, with which a value keeps it: its text without the
exclamation mark in front, and without one more that follows. -/
def name? (tag : Tag) : Option String :=
  if tag.isLocal then
    tag.text?.map fun text => String.ofList (unmarked (unmarked text.toList))
  else none

end Tag

/-- A tag as it is written.  The handle is empty where the tag stands between angle
brackets or is an exclamation mark alone. -/
structure TagToken where
  handle : String
  suffix : Tag
deriving DecidableEq

def octet? : List Char → Option (Nat × List Char)
  | '%' :: a :: b :: rest => do
      let octet ← Decimal.nat? 16 [a, b]
      some (octet, rest)
  | _ => none

def continuation? (code : Nat) : Nat → List Char → Option (Nat × List Char)
  | 0, text => some (code, text)
  | count + 1, text => do
      let (octet, rest) ← octet? text
      if octet / 64 = 2 then continuation? (code * 64 + octet % 64) count rest else none

/-- The number of octets that follow a first one, the bits it contributes, and the
least code point that needs them all. -/
def octetClass? (octet : Nat) : Option (Nat × Nat × Nat) :=
  if octet < 0x80 then some (0, octet, 0)
  else if octet / 32 = 6 then some (1, octet % 32, 0x80)
  else if octet / 16 = 14 then some (2, octet % 16, 0x800)
  else if octet / 8 = 30 then some (3, octet % 8, 0x10000)
  else none

/-- Reads an escaped character.  Octets of the right form that are no character give
nothing in its place. -/
def escapedChar? (text : List Char) : Option (Option Char × List Char) := do
  let (octet, rest) ← octet? text
  let (count, bits, least) ← octetClass? octet
  let (code, rest) ← continuation? bits count rest
  let char := if least ≤ code ∧ code.isValidChar then some (Char.ofNat code) else none
  return (char, rest)

/-- Reads the characters of a tag.  Commas and brackets belong to it only between
angle brackets. -/
def tagChars (verbatim : Bool) (text : List Char) :
    Option (List (Option Char) × List Char) :=
  match text with
  | [] => some ([], [])
  | c :: rest => do
      if c = '%' then
        let (char, next) ← escapedChar? text
        if next.length ≤ rest.length then
          let (chars, last) ← tagChars verbatim next
          return (char :: chars, last)
        else none
      else if isTagChar c ∨ (verbatim ∧ c ∈ [',', '[', ']']) then
        let (chars, last) ← tagChars verbatim rest
        return (some c :: chars, last)
      else return ([], text)
termination_by text.length
decreasing_by all_goals grind

/-- Reads a handle: an exclamation mark, and word characters up to another, if they
end in one. -/
def handle (cursor : Cursor) : Option (List Char × Cursor) :=
  match cursor.rest with
  | '!' :: rest =>
      let word := rest.takeWhile isWord
      let closing := if (rest.drop word.length).head? = some '!' then ['!'] else []
      let text := '!' :: word ++ closing
      some (text, cursor.advance text.length)
  | _ => none

def tagSuffix (verbatim : Bool) (cursor : Cursor) :
    Option (List (Option Char) × Cursor) := do
  let (chars, rest) ← tagChars verbatim cursor.rest
  return (chars, cursor.advance (cursor.rest.length - rest.length))

def bareTag (cursor : Cursor) : Option (TagToken × Cursor) := do
  if (cursor.rest.drop 1).head? = some '<' then
    let (chars, last) ← tagSuffix true (cursor.advance 2)
    if chars.isEmpty ∨ last.rest.head? ≠ some '>' then none
    return (⟨"", .ofChars chars⟩, last.advance 1)
  let (lead, next) ← handle cursor
  let (chars, last) ← tagSuffix false next
  if 1 < lead.length ∧ lead.getLast? = some '!' then
    if chars.isEmpty then none
    return (⟨String.ofList lead, .ofChars chars⟩, last)
  let suffix := Tag.ofChars ((lead.drop 1).map some ++ chars)
  if suffix.chars.isEmpty then
    return (⟨"", .ofText "!"⟩, last)
  return (⟨"!", suffix⟩, last)

def tag (inFlow : Bool) (cursor : Cursor) : Option (TagToken × Cursor) := do
  let (token, last) ← bareTag cursor
  if (inFlow ∧ last.rest.head? = some ',') ∨ endsWord last.rest then
    return (token, last)
  else none

end FilterQuery.Yaml
