import FilterQuery.Json.Basic
import FilterQuery.Proofs.Lists
/-!
# Objects

An object is built by putting one field after the other in its place.  Where the keys are
distinct no field replaces another, so the object holds every field it was given, and two objects
are the same only if they were given the same fields.
-/

namespace FilterQuery.Json

variable {key : String} {value : Json} {entries others sorted : List (String × Json)}

theorem perm_insert (hnew : key ∉ entries.map Prod.fst) :
    (insert key value entries).Perm ((key, value) :: entries) := by
  induction entries with
  | nil => exact .refl _
  | cons entry rest ih =>
      obtain ⟨k, v⟩ := entry
      obtain ⟨hne, hrest⟩ := List.ne_and_not_mem_of_not_mem_cons hnew
      rw [insert, if_neg hne]
      split
      · exact .refl _
      · exact ((ih hrest).cons _).trans (.swap _ _ _)

theorem perm_foldl_insert (hkeys : ((sorted ++ entries).map Prod.fst).Nodup) :
    (entries.foldl (fun sorted (key, value) => insert key value sorted) sorted).Perm
      (sorted ++ entries) := by
  induction entries generalizing sorted with
  | nil => rw [List.append_nil, List.foldl_nil]
  | cons entry rest ih =>
      obtain ⟨key, value⟩ := entry
      have hmiddle : (sorted ++ (key, value) :: rest).Perm ((key, value) :: (sorted ++ rest)) :=
        List.perm_middle
      have hdistinct := (hmiddle.map Prod.fst).nodup_iff.1 hkeys
      have hnew : key ∉ sorted.map Prod.fst := fun hmem =>
        (List.nodup_cons.1 hdistinct).1 (by simp_all)
      have hinsert : (insert key value sorted ++ rest).Perm ((key, value) :: (sorted ++ rest)) :=
        (perm_insert hnew).append_right rest
      have hnext := (hinsert.map Prod.fst).nodup_iff.2 hdistinct
      exact (ih hnext).trans (hinsert.trans hmiddle.symm)

theorem object_eq (hkeys : (entries.map Prod.fst).Nodup) :
    ∃ sorted, object entries = .fields sorted ∧ sorted.Perm entries :=
  ⟨_, rfl, perm_foldl_insert hkeys⟩

theorem perm_of_object_eq (hkeys : (entries.map Prod.fst).Nodup)
    (hothers : (others.map Prod.fst).Nodup) (hobject : object entries = object others) :
    entries.Perm others := by
  obtain ⟨sorted, heq, hperm⟩ := object_eq hkeys
  obtain ⟨sorted', heq', hperm'⟩ := object_eq hothers
  rw [heq, heq'] at hobject
  cases hobject
  exact hperm.symm.trans hperm'

end FilterQuery.Json
