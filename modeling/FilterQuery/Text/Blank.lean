/-!
# White space

The white space of a text is what Unicode's `White_Space` property names.  Both
ends of a text can be freed of it; nothing inside is touched.
-/

namespace FilterQuery.Text

/-- The ranges of code points that carry the `White_Space` property. -/
def blankRanges : List (Nat × Nat) :=
  [(0x09, 0x0d), (0x20, 0x20), (0x85, 0x85), (0xa0, 0xa0), (0x1680, 0x1680),
    (0x2000, 0x200a), (0x2028, 0x2029), (0x202f, 0x202f), (0x205f, 0x205f),
    (0x3000, 0x3000)]

def isBlank (c : Char) : Bool :=
  blankRanges.any fun (low, high) => low ≤ c.toNat && c.toNat ≤ high

/-- The characters without the white space they end in. -/
def dropBlankEnd : List Char → List Char
  | [] => []
  | c :: rest =>
      match dropBlankEnd rest with
      | [] => if isBlank c then [] else [c]
      | kept => c :: kept

def trimChars (text : List Char) : List Char :=
  dropBlankEnd (text.dropWhile isBlank)

def trim (text : String) : String :=
  String.ofList (trimChars text.toList)

theorem isBlank_of_isWhitespace {c : Char} (h : c.isWhitespace) : isBlank c := by
  simp only [Char.isWhitespace, Bool.or_eq_true, decide_eq_true_eq] at h
  rcases h with ((rfl | rfl) | rfl) | rfl <;> decide

end FilterQuery.Text
