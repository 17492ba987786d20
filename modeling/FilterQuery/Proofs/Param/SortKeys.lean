import FilterQuery.Proofs.Text.Trimming
import FilterQuery.SortKey
/-!
# Writing and reading sort keys

A sort key is written with a sign in front, so no white space at the beginning of its field is ever
trimmed, nor a sign there taken for that of the key.  White space at the end of the field is lost.
What is read was trimmed before the sign was taken off it, so its field may begin with anything and
does not end in white space.
-/

namespace FilterQuery

def Direction.sign : Direction → Char
  | .ascending => '+'
  | .descending => '-'

namespace SortKey

open Text (EndsBlank dropBlankEnd trimChars)

variable {key : SortKey}

theorem not_isBlank_sign (direction : Direction) : ¬ Text.isBlank direction.sign := by
  cases direction <;> decide

theorem toList_render (key : SortKey) :
    key.render.toList = key.direction.sign :: key.field.toList := by
  obtain ⟨field, direction⟩ := key
  cases direction <;> simp [render, Direction.sign]

theorem ofChars_sign (direction : Direction) (chars : List Char) :
    ofChars (direction.sign :: chars) = ⟨String.ofList chars, direction⟩ := by
  cases direction <;> rfl

theorem field_suffix (chars : List Char) : (ofChars chars).field.toList <:+ chars := by
  fun_cases ofChars chars <;> simp

/-! ## Reading what was written -/

theorem read_render (key : SortKey) :
    read key.render = ⟨String.ofList (dropBlankEnd key.field.toList), key.direction⟩ := by
  have hsign := not_isBlank_sign key.direction
  have htrim : trimChars key.render.toList =
      key.direction.sign :: dropBlankEnd key.field.toList := by
    rw [toList_render, trimChars, List.dropWhile_cons_of_neg hsign, Text.dropBlankEnd_cons hsign]
  rw [read, htrim, ofChars_sign]

theorem read_render_eq_self_iff : read key.render = key ↔ ¬ EndsBlank key.field.toList := by
  rw [read_render, ← Text.dropBlankEnd_eq_self_iff]
  constructor
  · intro heq
    have hfield := congrArg (·.field.toList) heq
    simpa using hfield
  · intro hfield
    rw [hfield, String.ofList_toList]

theorem not_endsBlank_field_read (raw : String) : ¬ EndsBlank (read raw).field.toList := by
  intro hends
  exact (Text.trimmed_trimChars raw.toList).ends (hends.of_suffix (field_suffix _))

/-- A sort key is read back from what it is written as exactly when its field does not end in white
space.  What was read from any text is such a key, so writing and reading it again changes nothing;
and every such key is read from some text. -/
theorem read_render_exact :
    (∀ key : SortKey, read key.render = key ↔ ¬ EndsBlank key.field.toList) ∧
    (∀ raw, read (read raw).render = read raw) ∧
    ∀ key : SortKey, (∃ raw, read raw = key) ↔ ¬ EndsBlank key.field.toList := by
  refine ⟨fun _ => read_render_eq_self_iff, ?_, ?_⟩
  · intro raw
    exact read_render_eq_self_iff.2 (not_endsBlank_field_read raw)
  · intro key
    constructor
    · rintro ⟨raw, rfl⟩
      exact not_endsBlank_field_read raw
    · intro hfield
      exact ⟨key.render, read_render_eq_self_iff.2 hfield⟩

/-- Only the first of several signs counts, and white space behind it belongs to the field. -/
example : read "" = ⟨"", .ascending⟩ ∧ read " - " = ⟨"", .descending⟩ ∧
    read "--x" = ⟨"-x", .descending⟩ ∧ read "+-x" = ⟨"-x", .ascending⟩ ∧
    read "-\u00a0x\t" = ⟨"\u00a0x", .descending⟩ := by
  decide

end SortKey

end FilterQuery
