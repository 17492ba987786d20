/-!
# Splitting names and lists

A field name is a chain of segments joined by a double underscore, and a list
parameter is a chain of items joined by commas.  Cutting works from the left and
takes the earliest delimiter each time, so the pieces of a name never hold the
delimiter, while `a___b` is cut into `a` and `_b`.
-/

namespace FilterQuery.Text

def delimiter : String := "__"

/-- The segments of a name, cut at the leftmost delimiters that do not overlap. -/
def segmentChars : List Char → List (List Char)
  | [] => [[]]
  | '_' :: '_' :: rest => [] :: segmentChars rest
  | c :: rest => (segmentChars rest).modifyHead (c :: ·)

def segments (name : String) : List String :=
  (segmentChars name.toList).map String.ofList

/-- The items of a comma-separated text; the empty text has none. -/
def items (text : String) : List String :=
  if text.isEmpty then []
  else (text.toList.splitOn ',').map String.ofList

def after? (lead text : String) : Option String :=
  (lead.toList.isPrefixOf? text.toList).map String.ofList

end FilterQuery.Text
