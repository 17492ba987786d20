import FilterQuery.Yaml.Tag
/-!
# Directives

A directive stands on a line of its own before a document.  One gives the version
of the syntax, another the beginning that a tag handle stands for; others are not
known.
-/

namespace FilterQuery.Yaml

inductive Directive where
  | version (major minor : Nat)
  | tag (handle : String) (start : Tag)
deriving DecidableEq

/-- Reads a part of a version number: one to nine digits. -/
def versionPart? (cursor : Cursor) : Option (Nat × Cursor) := do
  let digits := cursor.takeWhile Char.isDigit
  if 9 < digits.length then none
  let number ← Decimal.nat? 10 digits
  return (number, cursor.advance digits.length)

def versionValue? (cursor : Cursor) : Option (Directive × Cursor) := do
  let (major, cursor) ← versionPart? (cursor.dropWhile isSpace)
  if cursor.rest.head? ≠ some '.' then none
  let (minor, cursor) ← versionPart? (cursor.advance 1)
  return (.version major minor, cursor)

def tagValue? (cursor : Cursor) : Option (Directive × Cursor) := do
  let (lead, next) ← handle (cursor.dropWhile isSpace)
  if lead ≠ ['!'] ∧ lead.getLast? ≠ some '!' then none
  if !next.rest.head?.any isSpace then none
  let (chars, last) ← tagSuffix true (next.dropWhile isSpace)
  if chars.isEmpty ∨ !endsWord last.rest then none
  return (.tag (String.ofList lead) (.ofChars chars), last)

def directive? (cursor : Cursor) : Option (Directive × Cursor) := do
  let cursor := cursor.advance 1
  let name := cursor.takeWhile isWord
  let value := cursor.advance name.length
  if !endsWord value.rest then none
  let (directive, last) ←
    if name = "YAML".toList then versionValue? value
    else if name = "TAG".toList then tagValue? value
    else none
  return (directive, ← last.lineEnd?)

end FilterQuery.Yaml
