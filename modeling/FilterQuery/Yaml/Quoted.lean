import FilterQuery.Yaml.Folding
import FilterQuery.Decimal.Integer
/-!
# Quoted scalars

A quoted scalar runs to its closing quote over words and gaps.  In single quotes a
quote is written twice.  In double quotes a backslash begins an escape: a letter, a
code point in hexadecimal digits, or a line end that does not count.
-/

namespace FilterQuery.Yaml

structure QuotedWord where
  text : List Char
  next : Cursor
  /-- whether it ends in an escaped line end -/
  joined : Bool := false

def QuotedWord.cons (c : Char) (word : QuotedWord) : QuotedWord :=
  { word with text := c :: word.text }

def singleWord (position : Position) : List Char → QuotedWord
  | '\'' :: '\'' :: rest => (singleWord (position.pass ['\'', '\'']) rest).cons '\''
  | c :: rest =>
      if c = '\'' ∨ isGap c then { text := [], next := ⟨c :: rest, position⟩ }
      else (singleWord (position.pass [c]) rest).cons c
  | [] => { text := [], next := ⟨[], position⟩ }

def escaped? (c : Char) : Option Char :=
  [('0', '\x00'), ('a', '\x07'), ('b', '\x08'), ('t', '\t'), ('\t', '\t'), ('n', '\n'),
    ('v', '\x0b'), ('f', '\x0c'), ('r', '\x0d'), ('e', '\x1b'), (' ', ' '), ('"', '"'),
    ('/', '/'), ('\\', '\\'), ('N', '\u0085'), ('_', '\u00a0'), ('L', '\u2028'),
    ('P', '\u2029')].lookup c

/-- The number of hexadecimal digits after a letter that asks for a code point. -/
def escapeWidth? (c : Char) : Option Nat :=
  [('x', 2), ('u', 4), ('U', 8)].lookup c

/-- The character of a code point; surrogates have none. -/
def charOfCode? (code : Nat) : Option Char :=
  if code.isValidChar then some (Char.ofNat code) else none

def doubleWord (cursor : Cursor) : Option QuotedWord :=
  match _h : cursor.rest with
  | [] => some { text := [], next := cursor }
  | c :: rest =>
      if c = '"' ∨ isGap c then some { text := [], next := cursor }
      else if c ≠ '\\' then (doubleWord (cursor.advance 1)).map (·.cons c)
      else
        match rest with
        | [] => none
        | d :: rest =>
            if isBreak d then
              some { text := [], next := (cursor.advance 1).dropBreak, joined := true }
            else
              match escaped? d with
              | some e => (doubleWord (cursor.advance 2)).map (·.cons e)
              | none => do
                  let width ← escapeWidth? d
                  let digits := rest.take width
                  if digits.length ≠ width then none
                  let e ← charOfCode? (← Decimal.nat? 16 digits)
                  (doubleWord (cursor.advance (2 + width))).map (·.cons e)
termination_by cursor.rest.length
decreasing_by all_goals simp [Cursor.advance, _h] <;> omega

def quotedText (double : Bool) (cursor : Cursor) : Option (List Char × Cursor) := do
  if cursor.position.column = 0 ∧ atMarker cursor.rest then none
  let quote := if double then '"' else '\''
  let word ← if double then doubleWord cursor
    else some (singleWord cursor.position cursor.rest)
  if word.next.rest.head? = some quote then
    return (word.text, word.next.advance 1)
  let (gap, next) ←
    ({ broken := word.joined } : Gap).scan 0 word.next.position word.next.rest
  if next.rest.length < cursor.rest.length then
    let (more, last) ← quotedText double next
    return (word.text ++ gap.text ++ more, last)
  else none
termination_by cursor.rest.length

end FilterQuery.Yaml
