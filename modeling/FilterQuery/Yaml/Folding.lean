import FilterQuery.Yaml.Cursor
/-!
# Folding lines

Between two words of a flow scalar there is a gap.  A gap on one line counts as it
stands.  A gap with line ends is folded: one line feed becomes a space, and of
several the first is dropped; blanks around line ends do not count.
-/

namespace FilterQuery.Yaml

/-- White space between two words of a scalar. -/
structure Gap where
  /-- the blanks before the first line end -/
  blanks : List Char := []
  /-- whether a line end was met, or one was escaped -/
  broken : Bool := false
  /-- the first line end -/
  first : List Char := []
  /-- the other line ends -/
  others : List Char := []

namespace Gap

def text (gap : Gap) : List Char :=
  if gap.broken then
    if gap.first = ['\n'] then if gap.others.isEmpty then [' '] else gap.others
    else gap.first ++ gap.others
  else gap.blanks

def addBreak (gap : Gap) (c : Char) : Gap :=
  if gap.broken then { gap with others := gap.others ++ [lineFeed c] }
  else { gap with blanks := [], broken := true, first := [lineFeed c] }

def addBlank (gap : Gap) (c : Char) : Gap :=
  if gap.broken then gap else { gap with blanks := gap.blanks ++ [c] }

/-- Reads on to the end of a gap.  No tab may indent a line to a column before
`margin`. -/
def scan (margin : Nat) (gap : Gap) (position : Position) :
    List Char → Option (Gap × Cursor)
  | [] => some (gap, ⟨[], position⟩)
  | '\x0d' :: '\n' :: rest =>
      (gap.addBreak '\n').scan margin (position.nextLine ['\x0d', '\n']) rest
  | c :: rest =>
      if isBreak c then (gap.addBreak c).scan margin (position.nextLine [c]) rest
      else if isSpace c then
        if gap.broken ∧ position.column < margin ∧ c = '\t' then none
        else (gap.addBlank c).scan margin (position.pass [c]) rest
      else some (gap, ⟨c :: rest, position⟩)

end Gap

end FilterQuery.Yaml
