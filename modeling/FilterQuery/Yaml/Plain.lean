import FilterQuery.Yaml.Folding
/-!
# Plain scalars

A plain scalar runs over words and gaps until something that cannot belong to it:
a colon that ends a key, a comment, a flow indicator inside a flow collection, a
document marker, or a line that is not indented enough.
-/

namespace FilterQuery.Yaml

/-- Reads a word of a plain scalar.  In a flow collection a colon must not stand
right before a flow indicator. -/
def plainWord (inFlow : Bool) (position : Position) :
    List Char → Option (List Char × Cursor)
  | [] => some ([], ⟨[], position⟩)
  | c :: rest =>
      let next := rest.head?
      if isGap c then some ([], ⟨c :: rest, position⟩)
      else if inFlow ∧ c = ':' ∧ next.any (fun d => d = '?' || isFlowIndicator d) then none
      else if (c = ':' ∧ endsWord rest) ∨ (inFlow ∧ isFlowIndicator c) then
        some ([], ⟨c :: rest, position⟩)
      else do
        let (word, last) ← plainWord inFlow (position.pass [c]) rest
        some (c :: word, last)

/-- Reads a plain scalar from a cursor, `gap` being the white space before it.  Gives
the text, whether a line end was met after the last word, and what follows. -/
def plainText (inFlow : Bool) (margin : Nat) (gap : Gap) (cursor : Cursor) :
    Option (List Char × Bool × Cursor) := do
  if (cursor.position.column = 0 ∧ atMarker cursor.rest) ∨ cursor.rest.head? = some '#' then
    return ([], gap.broken, cursor)
  let (word, last) ← plainWord inFlow cursor.position cursor.rest
  let (text, gap) := if word.isEmpty then ([], gap) else (gap.text ++ word, {})
  if !last.rest.head?.any isGap then
    return (text, gap.broken, last)
  let (gap, next) ← gap.scan margin last.position last.rest
  if !inFlow ∧ next.position.column < margin then
    return (text, gap.broken, next)
  if next.rest.length < cursor.rest.length then
    let (more, broken, last) ← plainText inFlow margin gap next
    return (text ++ more, broken, last)
  else none
termination_by cursor.rest.length

end FilterQuery.Yaml
