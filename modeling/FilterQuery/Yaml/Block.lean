import FilterQuery.Yaml.Cursor
/-!
# Block scalars

A block scalar is a header and the lines indented below it.  Its indentation is
given in the header or found from the first line that is not blank.  A literal
scalar keeps its line ends; a folded one joins lines that do not begin with a
blank.  The header says which of the line ends at its end are kept.
-/

namespace FilterQuery.Yaml

inductive Chomping where
  | strip
  | clip
  | keep
deriving DecidableEq

/-- The header of a block scalar: what is kept at its end, and its indentation
relative to the block around it, or zero where it is to be found. -/
structure BlockHeader where
  chomping : Chomping := .clip
  indent : Nat := 0

def chomping? (c : Char) : Option Chomping :=
  if c = '+' then some .keep else if c = '-' then some .strip else none

/-- The indentation that a digit asks for; there is none of zero columns. -/
def indent? (c : Char) : Option Nat :=
  if '1' ≤ c ∧ c ≤ '9' then some (c.toNat - '0'.toNat) else none

def blockHeader (text : List Char) : BlockHeader × Nat :=
  match text with
  | c :: rest =>
      match chomping? c, indent? c with
      | some chomping, _ =>
          match rest.head?.bind indent? with
          | some indent => (⟨chomping, indent⟩, 2)
          | none => ({ chomping }, 1)
      | none, some indent =>
          match rest.head?.bind chomping? with
          | some chomping => (⟨chomping, indent⟩, 2)
          | none => ({ indent }, 1)
      | none, none => ({}, 0)
  | [] => ({}, 0)

/-- Reads blank lines and the indentation of the next line, up to `indent` columns or
without bound where that is zero.  Gives the line ends, the greatest indentation
met, and what follows.  A tab does not indent. -/
def blankLines (indent widest : Nat) (position : Position) :
    List Char → Option (List Char × Nat × Cursor)
  | [] => some ([], max widest position.column, ⟨[], position⟩)
  | '\x0d' :: '\n' :: rest => do
      let (breaks, found) ←
        blankLines indent (max widest position.column) (position.nextLine ['\x0d', '\n'])
          rest
      some ('\n' :: breaks, found)
  | c :: rest =>
      let inside := indent = 0 ∨ position.column < indent
      let widest' := max widest position.column
      if inside ∧ c = ' ' then blankLines indent widest (position.pass [c]) rest
      else if inside ∧ c = '\t' then none
      else if isBreak c then do
        let (breaks, found) ← blankLines indent widest' (position.nextLine [c]) rest
        some (lineFeed c :: breaks, found)
      else some ([], widest', ⟨c :: rest, position⟩)

structure BlockState where
  /-- the line end before the blank lines -/
  lineEnd : List Char := []
  /-- the line ends of the blank lines -/
  blank : List Char
  /-- whether the line before began with a blank -/
  spaced : Bool := false
  cursor : Cursor

def blockLines (folded : Bool) (indent : Nat) (state : BlockState) :
    Option (List Char × BlockState) := do
  let cursor := state.cursor
  if cursor.position.column ≠ indent ∨ cursor.rest.isEmpty then
    return ([], state)
  let spaced := cursor.rest.head?.any isSpace
  let join := folded && state.lineEnd = ['\n'] && !state.spaced && !spaced
  let before :=
    if join then if state.blank.isEmpty then [' '] else [] else state.lineEnd
  let line := cursor.takeWhile (!isBreak ·)
  let last := cursor.advance line.length
  let lineEnd := (last.rest.head?.map lineFeed).toList
  let next := last.dropBreak
  let (blank, _, next) ← blankLines indent 0 next.position next.rest
  if next.rest.length < cursor.rest.length then
    let (more, final) ← blockLines folded indent ⟨lineEnd, blank, spaced, next⟩
    return (before ++ state.blank ++ line ++ more, final)
  else none
termination_by state.cursor.rest.length

/-- Reads a block scalar from a cursor behind its indicator, in a block whose content
begins at column `margin`. -/
def blockText (folded : Bool) (margin : Nat) (cursor : Cursor) :
    Option (List Char × Cursor) := do
  let (header, width) := blockHeader cursor.rest
  let start ← (cursor.advance width).lineEnd?
  let given := if header.indent = 0 then 0 else margin - 1 + header.indent
  let (blank, widest, first) ← blankLines given 0 start.position start.rest
  let indent := if given = 0 then max widest (max margin 1) else given
  let (text, final) ← blockLines folded indent { blank, cursor := first }
  let tail :=
    match header.chomping with
    | .strip => []
    | .clip => final.lineEnd
    | .keep => final.lineEnd ++ final.blank
  return (text ++ tail, final.cursor)

end FilterQuery.Yaml
