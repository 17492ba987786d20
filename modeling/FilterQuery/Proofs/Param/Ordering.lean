import FilterQuery.Param.Ordering
import Mathlib.Data.List.Nodup
/-!
# Orderings that are allowed

The check of an ordering reads the sort keys of its entries for their fields only.  It finds
nothing wrong exactly when each field may be sorted by and none is named twice.
-/

namespace FilterQuery

variable {sortable entries : List String} {constants : Constants}

theorem repeatedFields_eq_nil_iff {seen fields : List String} (hseen : seen.Nodup) :
    repeatedFields seen fields = [] ↔ fields.Nodup ∧ ∀ field ∈ fields, field ∉ seen := by
  induction fields generalizing seen with
  | nil => simp [repeatedFields]
  | cons field rest ih =>
      rw [repeatedFields, List.forall_mem_cons]
      by_cases hmem : field ∈ seen
      · rw [if_pos (List.count_eq_one_of_mem hseen hmem)]
        simp [hmem]
      · rw [if_neg (by simp [List.count_eq_zero_of_not_mem hmem]),
          ih (List.nodup_cons.2 ⟨hmem, hseen⟩), List.nodup_cons]
        constructor
        · rintro ⟨hrest, hnew⟩
          exact ⟨⟨fun h => hnew field h (.head _), hrest⟩, hmem,
            fun other hother h => hnew other hother (.tail _ h)⟩
        · rintro ⟨⟨hfield, hrest⟩, _, hnew⟩
          refine ⟨hrest, fun other hother => ?_⟩
          rw [List.mem_cons, not_or]
          exact ⟨fun heq => hfield (heq ▸ hother), hnew other hother⟩

theorem orderingFault?_eq_none_iff :
    orderingFault? sortable entries = none ↔
      (entries.map sortedField).Nodup ∧ ∀ field ∈ entries.map sortedField, field ∈ sortable := by
  have hrepeated : repeatedFields [] (entries.map sortedField) = [] ↔
      (entries.map sortedField).Nodup := by
    simpa using repeatedFields_eq_nil_iff List.nodup_nil
  unfold orderingFault?
  dsimp only
  cases hfind : (entries.map sortedField).find? (· ∉ sortable) with
  | some field =>
      have hnot : field ∉ sortable := by simpa using List.find?_some hfind
      constructor
      · nofun
      · rintro ⟨_, hall⟩
        exact absurd (hall field (List.mem_of_find?_eq_some hfind)) hnot
  | none =>
      have hall : ∀ field ∈ entries.map sortedField, field ∈ sortable := by simpa using hfind
      rw [← hrepeated, and_iff_left hall, ← List.isEmpty_iff]
      dsimp only
      split
      · exact iff_of_true rfl ‹_›
      · exact iff_of_false nofun ‹_›

/-- The check lets through what names distinct fields that may be sorted by. -/
theorem checkOrdering_eq_ok_iff :
    checkOrdering constants entries = .ok () ↔
      ∀ sortable, constants.sortable = some sortable →
        (entries.map sortedField).Nodup ∧ ∀ field ∈ entries.map sortedField, field ∈ sortable := by
  have hcheck : checkOrdering constants entries = .ok () ↔
      constants.sortable.bind (orderingFault? · entries) = none := by
    unfold checkOrdering
    split
    · rename_i fault hfault
      exact iff_of_false nofun (by simp [hfault])
    · rename_i hnone
      exact iff_of_true rfl hnone
  rw [hcheck, Option.bind_eq_none_iff]
  simp only [orderingFault?_eq_none_iff]

end FilterQuery
