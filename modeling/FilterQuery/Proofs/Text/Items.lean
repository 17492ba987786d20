import FilterQuery.Param.Ordering
import FilterQuery.Proofs.Text.Trimming
/-!
# Items of a text

Cutting a text at its commas and joining the items with commas undo each other.  The empty text is
taken for no items and not for an empty one, so of all lists of items without a comma only the list
of one empty item is not found again.  The entries of an ordering are the items in which anything
but white space is written.
-/

namespace FilterQuery.Text

variable {text kept raw item : String} {parts : List String}

/-! ## Cutting and joining -/

theorem comma_not_mem_of_mem_splitOn {chars piece : List Char}
    (hmem : piece ∈ chars.splitOn ',') : ',' ∉ piece := by
  induction chars generalizing piece with
  | nil =>
      rw [List.splitOn_nil, List.mem_singleton] at hmem
      exact hmem ▸ List.not_mem_nil
  | cons c rest ih =>
      obtain ⟨first, later, hcut⟩ := List.exists_cons_of_ne_nil (List.splitOn_ne_nil ',' rest)
      rw [List.splitOn_cons_eq_if_modifyHead] at hmem
      rw [hcut] at hmem ih
      split at hmem
      · rcases List.mem_cons.1 hmem with rfl | hmem
        · exact List.not_mem_nil
        · exact ih hmem
      · rename_i hc
        rcases List.mem_cons.1 hmem with rfl | hmem
        · -- The open piece grows by a character that is no comma.
          have hfirst := ih (List.mem_cons_self ..)
          have hne : ',' ≠ c := fun heq => hc (by rw [heq, beq_self_eq_true])
          exact List.not_mem_cons_of_ne_of_not_mem hne hfirst
        · exact ih (.tail _ hmem)

theorem items_of_ne_empty (hraw : raw ≠ "") :
    items raw = (raw.toList.splitOn ',').map String.ofList := by
  rw [items, if_neg (by simpa using hraw)]

theorem intercalate_items (raw : String) : ",".intercalate (items raw) = raw := by
  by_cases hraw : raw = ""
  · subst hraw
    rfl
  · have hpieces : (items raw).map String.toList = raw.toList.splitOn ',' := by
      rw [items_of_ne_empty hraw, List.map_map]
      simp [Function.comp_def]
    rw [← String.toList_inj, String.toList_intercalate, hpieces]
    exact List.intercalate_splitOn ','

theorem comma_not_mem_of_mem_items (hmem : item ∈ items raw) : ',' ∉ item.toList := by
  unfold items at hmem
  split at hmem
  · cases hmem
  · obtain ⟨piece, hpiece, rfl⟩ := List.mem_map.1 hmem
    rw [String.toList_ofList]
    exact comma_not_mem_of_mem_splitOn hpiece

theorem items_ne_singleton_empty (raw : String) : items raw ≠ [""] := by
  intro hitems
  have hjoined := intercalate_items raw
  rw [hitems, String.intercalate_singleton] at hjoined
  subst hjoined
  cases hitems

theorem items_intercalate (hparts : ∀ part ∈ parts, ',' ∉ part.toList) (hne : parts ≠ [""]) :
    items (",".intercalate parts) = parts := by
  by_cases hnil : parts = []
  · subst hnil
    rfl
  · have hcut : (",".intercalate parts).toList.splitOn ',' = parts.map String.toList := by
      rw [String.toList_intercalate]
      exact List.splitOn_intercalate ',' (List.forall_mem_map.2 hparts) (by simpa using hnil)
    have hjoined : ",".intercalate parts ≠ "" := by
      intro hempty
      rw [hempty] at hcut
      obtain ⟨part, rfl, hpart⟩ := List.map_eq_singleton_iff.1 hcut.symm
      exact hne (by rw [String.toList_eq_nil_iff.1 hpart])
    rw [items_of_ne_empty hjoined, hcut, List.map_map]
    simp [Function.comp_def]

/-- A text is cut in one way into items without a comma. -/
theorem items_eq_iff :
    items raw = parts ↔
      raw = ",".intercalate parts ∧ (∀ part ∈ parts, ',' ∉ part.toList) ∧ parts ≠ [""] := by
  constructor
  · rintro rfl
    exact ⟨(intercalate_items raw).symm, fun _ => comma_not_mem_of_mem_items,
      items_ne_singleton_empty raw⟩
  · rintro ⟨rfl, hparts, hne⟩
    exact items_intercalate hparts hne

/-! ## Entries of an ordering -/

theorem trim_eq_iff : trim text = kept ↔ Padded kept.toList text.toList ∧ Trimmed kept.toList := by
  rw [← trimChars_eq_iff, trim, ← String.toList_inj, String.toList_ofList]

theorem orderingEntries_eq (raw : String) :
    orderingEntries raw = ((items raw).filter (trim · ≠ "")).map trim := by
  have hkept : ∀ item, (!(trim item).isEmpty) = decide (trim item ≠ "") := by
    intro item
    rw [Bool.eq_iff_iff]
    simp
  rw [orderingEntries, List.filter_map]
  exact congrArg (List.map trim) (List.filter_congr fun item _ => hkept item)

/-- Cutting a text into items loses nothing: joined with commas they are the text, and items
without a comma are found again, unless all there is to join is one empty item.  The entries of an
ordering are the items of which trimming leaves anything, trimmed and in their order. -/
theorem items_lossless :
    (∀ raw, ",".intercalate (items raw) = raw ∧ ∀ item ∈ items raw, ',' ∉ item.toList) ∧
    (∀ parts : List String, (∀ part ∈ parts, ',' ∉ part.toList) →
      (items (",".intercalate parts) = parts ↔ parts ≠ [""])) ∧
    (∀ raw, orderingEntries raw = ((items raw).filter (trim · ≠ "")).map trim) ∧
    ∀ text kept, trim text = kept ↔ Padded kept.toList text.toList ∧ Trimmed kept.toList := by
  refine ⟨?_, ?_, orderingEntries_eq, fun _ _ => trim_eq_iff⟩
  · intro raw
    obtain ⟨hjoined, hitems, _⟩ := items_eq_iff.1 (rfl : items raw = items raw)
    exact ⟨hjoined.symm, hitems⟩
  · intro parts hparts
    rw [items_eq_iff, and_iff_right rfl, and_iff_right hparts]

/-! ## Tags, some of them empty -/

namespace Sample

def tags : List String := ["", " a", "", "b c "]

example : orderingEntries " -age,, +name ,\t" = ["-age", "+name"] := by
  decide

/-- Empty tags are found again, the first of them too, but not an empty tag alone. -/
theorem tags_found_again :
    (∀ tag ∈ tags, ',' ∉ tag.toList) ∧ ",".intercalate tags = ", a,,b c " ∧
      items ", a,,b c " = tags ∧ items (",".intercalate [""]) ≠ [""] := by
  have htags : ∀ tag ∈ tags, ',' ∉ tag.toList := by decide
  have hjoined : ",".intercalate tags = ", a,,b c " := by decide
  obtain ⟨_, hfound, _, _⟩ := items_lossless
  refine ⟨htags, hjoined, ?_, ?_⟩
  · rw [← hjoined]
    exact (hfound tags htags).2 (by decide)
  · exact fun hitems => (hfound [""] (by decide)).1 hitems rfl

end Sample

end FilterQuery.Text
