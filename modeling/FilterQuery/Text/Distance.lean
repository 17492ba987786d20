/-!
# Edit distance

The distance between two texts is the least number of single-character
insertions, deletions and substitutions that turns one into the other.  It is
computed row by row: the row of a text `a` against `b` lists the distances from
`a` to every beginning of `b`, shortest first.
-/

namespace FilterQuery.Text

/-- The rest of a row, given the distance `left` found just before it, the row
`above` it, and the characters not yet compared. -/
def rowFrom (c : Char) (left : Nat) : List Nat → List Char → List Nat
  | diagonal :: up :: above, d :: rest =>
      let here := min (diagonal + if c = d then 0 else 1) (min (up + 1) (left + 1))
      here :: rowFrom c here (up :: above) rest
  | _, _ => []

def nextRow (c : Char) (row : List Nat) (b : List Char) : List Nat :=
  let first := row.headD 0 + 1
  first :: rowFrom c first row b

def charDistance (a b : List Char) : Nat :=
  (a.foldl (fun row c => nextRow c row b) (List.range (b.length + 1))).getLastD 0

/-- The edit distance of two texts, counted in Unicode scalar values. -/
def distance (a b : String) : Nat :=
  charDistance a.toList b.toList

end FilterQuery.Text
