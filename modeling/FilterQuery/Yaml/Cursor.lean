import FilterQuery.Yaml.Character
/-!
# Places in a stream

A cursor is what remains of a stream together with where it begins.  Columns and
lines matter because indentation carries structure, and are counted in characters;
the offset matters because an implicit key has a greatest length, and is counted in
octets.  A carriage return and the line feed after it end one line.
-/

namespace FilterQuery.Yaml

def octets (chars : List Char) : Nat :=
  chars.foldl (fun count c => count + c.utf8Size) 0

structure Position where
  offset : Nat := 0
  line : Nat := 0
  column : Nat := 0
deriving DecidableEq, Repr

def Position.pass (position : Position) (chars : List Char) : Position :=
  ⟨position.offset + octets chars, position.line, position.column + chars.length⟩

def Position.nextLine (position : Position) (chars : List Char) : Position :=
  ⟨position.offset + octets chars, position.line + 1, 0⟩

/-- What remains of a stream, and where it begins. -/
structure Cursor where
  rest : List Char
  position : Position := {}

namespace Cursor

def advance (cursor : Cursor) (count : Nat) : Cursor :=
  ⟨cursor.rest.drop count, cursor.position.pass (cursor.rest.take count)⟩

def takeWhile (cursor : Cursor) (p : Char → Bool) : List Char :=
  cursor.rest.takeWhile p

/-- The cursor after the characters of a class, which must not end lines. -/
def dropWhile (cursor : Cursor) (p : Char → Bool) : Cursor :=
  cursor.advance (cursor.takeWhile p).length

/-- The cursor after a line end, if there is one. -/
def dropBreak (cursor : Cursor) : Cursor :=
  match cursor.rest with
  | '\x0d' :: '\n' :: rest => ⟨rest, cursor.position.nextLine ['\x0d', '\n']⟩
  | c :: rest => if isBreak c then ⟨rest, cursor.position.nextLine [c]⟩ else cursor
  | [] => cursor

/-- The cursor after blanks and a comment, at the end of the line; nothing, where
something else stands on it. -/
def lineEnd? (cursor : Cursor) : Option Cursor :=
  let cursor := cursor.dropWhile isSpace
  let cursor :=
    if cursor.rest.head? = some '#' then cursor.dropWhile (!isBreak ·) else cursor
  if cursor.rest.head?.all isBreak then some cursor.dropBreak else none

end Cursor

end FilterQuery.Yaml
