import FilterQuery.Registry
import FilterQuery.Proofs.Lists
import Mathlib.Data.List.TakeWhile
/-!
# Registration

A definition is registered where its name is new, after those that were registered before.  Of
several definitions those are registered that come before the first whose name is taken.
-/

namespace FilterQuery.Registry

variable {registry : Registry} {definitions : List Definition} {definition : Definition}
  {name : String}

theorem contains_iff : registry.contains name ↔ name ∈ registry.names := by
  simp only [contains, names, List.any_eq_true, beq_iff_eq, List.mem_map]

theorem contains_eq_false_iff : registry.contains name = false ↔ name ∉ registry.names := by
  rw [← contains_iff, Bool.not_eq_true]

theorem contains_eq_isSome_get? (registry : Registry) (name : String) :
    registry.contains name = (registry.get? name).isSome := by
  rw [contains, get?, List.isSome_find?]

theorem isSome_get?_iff : (registry.get? name).isSome ↔ name ∈ registry.names := by
  rw [← contains_eq_isSome_get?, contains_iff]

theorem get?_append (registry other : Registry) (name : String) :
    get? ⟨registry.definitions ++ other.definitions⟩ name =
      (registry.get? name).or (other.get? name) :=
  List.find?_append

theorem names_append (registry : Registry) (definitions : List Definition) :
    names ⟨registry.definitions ++ definitions⟩ =
      registry.names ++ definitions.map (·.name) :=
  List.map_append

theorem get?_append_of_new {moved : List Definition}
    (hnew : ∀ definition ∈ moved, definition.name ∉ registry.names) (rest : List Definition)
    (name : String) :
    get? ⟨registry.definitions ++ moved⟩ name =
      if name ∈ moved.map (·.name) then get? ⟨moved ++ rest⟩ name else registry.get? name := by
  rw [get?_append registry ⟨moved⟩]
  split
  · rename_i hmem
    have hfound : (get? ⟨moved⟩ name).isSome := isSome_get?_iff.2 hmem
    have hnone : registry.get? name = none := by
      obtain ⟨definition, hdefinition, rfl⟩ := List.mem_map.1 hmem
      rw [← Option.not_isSome_iff_eq_none, isSome_get?_iff]
      exact hnew definition hdefinition
    rw [hnone, Option.none_or, get?_append ⟨moved⟩ ⟨rest⟩, Option.or_of_isSome hfound]
  · rename_i hmem
    have hnone : get? ⟨moved⟩ name = none := by
      rwa [← Option.not_isSome_iff_eq_none, isSome_get?_iff]
    rw [hnone, Option.or_none]

theorem insert?_eq_some (hnew : definition.name ∉ registry.names) :
    registry.insert? definition = some ⟨registry.definitions ++ [definition]⟩ := by
  rw [insert?, contains_eq_false_iff.2 hnew]
  rfl

theorem insert?_eq_none (htaken : definition.name ∈ registry.names) :
    registry.insert? definition = none := by
  rw [insert?, if_pos (contains_iff.2 htaken)]

/-- The definitions that come before the first whose name is taken. -/
def fresh (registry : Registry) (definitions : List Definition) : List Definition :=
  definitions.takeWhile (·.name ∉ registry.names)

def taken? (registry : Registry) (definitions : List Definition) : Option String :=
  (definitions.map (·.name)).find? (· ∈ registry.names)

section Agreement

variable {other : Registry}
  (hsame : ∀ definition ∈ definitions,
    definition.name ∈ registry.names ↔ definition.name ∈ other.names)

include hsame

theorem fresh_congr : registry.fresh definitions = other.fresh definitions := by
  induction definitions with
  | nil => rfl
  | cons definition rest ih =>
      obtain ⟨hfirst, hrest⟩ := List.forall_mem_cons.1 hsame
      have heq := ih hrest
      unfold fresh at heq ⊢
      simp only [List.takeWhile_cons, hfirst, heq]

theorem taken?_congr : registry.taken? definitions = other.taken? definitions := by
  induction definitions with
  | nil => rfl
  | cons definition rest ih =>
      obtain ⟨hfirst, hrest⟩ := List.forall_mem_cons.1 hsame
      have heq := ih hrest
      unfold taken? at heq ⊢
      simp only [List.map_cons, List.find?_cons, hfirst, heq]

end Agreement

theorem fresh_cons (hnew : definition.name ∉ registry.names) :
    registry.fresh (definition :: definitions) = definition :: registry.fresh definitions := by
  rw [fresh, List.takeWhile_cons_of_pos (by simpa using hnew), fresh]

theorem taken?_cons (hnew : definition.name ∉ registry.names) :
    registry.taken? (definition :: definitions) = registry.taken? definitions := by
  rw [taken?, List.map_cons, List.find?_cons_of_neg (by simpa using hnew), taken?]

theorem disjoint_names_iff :
    registry.names.Disjoint (definitions.map (·.name)) ↔
      ∀ definition ∈ definitions, definition.name ∉ registry.names := by
  simp [List.disjoint_right]

theorem fresh_of_new (hnew : ∀ definition ∈ definitions, definition.name ∉ registry.names) :
    registry.fresh definitions = definitions :=
  List.takeWhile_eq_self_iff.2 fun definition hmem => decide_eq_true (hnew definition hmem)

theorem taken?_eq_none_iff :
    registry.taken? definitions = none ↔
      ∀ definition ∈ definitions, definition.name ∉ registry.names := by
  simp [taken?]

theorem exists_of_taken?_eq_some (htaken : registry.taken? definitions = some name) :
    name ∈ registry.names ∧ ∃ definition rest, definition.name = name ∧
      definitions = registry.fresh definitions ++ definition :: rest := by
  induction definitions with
  | nil => cases htaken
  | cons definition others ih =>
      by_cases hnew : definition.name ∈ registry.names
      · have heq : definition.name = name := by simpa [taken?, hnew] using htaken
        refine ⟨heq ▸ hnew, definition, others, heq, ?_⟩
        simp [fresh, hnew]
      · rw [taken?_cons hnew] at htaken
        obtain ⟨hmem, later, rest, hname, hrest⟩ := ih htaken
        refine ⟨hmem, later, rest, hname, ?_⟩
        rw [fresh_cons hnew, List.cons_append, ← hrest]

theorem new_of_mem_fresh (hmem : definition ∈ registry.fresh definitions) :
    definition.name ∉ registry.names := by
  simpa using List.mem_takeWhile_imp hmem

/-- Definitions of distinct names only meet names that were taken before them. -/
theorem insertAll_eq (hnodup : (definitions.map (·.name)).Nodup) :
    registry.insertAll definitions =
      (⟨registry.definitions ++ registry.fresh definitions⟩, registry.taken? definitions) := by
  induction definitions generalizing registry with
  | nil => simp [insertAll, fresh, taken?]
  | cons definition rest ih =>
      obtain ⟨hfirst, hrest⟩ := List.nodup_cons.1 hnodup
      rw [insertAll]
      by_cases htaken : definition.name ∈ registry.names
      · rw [insert?_eq_none htaken]
        simp [fresh, taken?, htaken]
      · have hsame : ∀ other ∈ rest,
            other.name ∈ names ⟨registry.definitions ++ [definition]⟩ ↔
              other.name ∈ registry.names := by
          intro other hmem
          have hne : other.name ≠ definition.name :=
            fun heq => hfirst (List.mem_map.2 ⟨other, hmem, heq⟩)
          simp [names_append, hne]
        rw [insert?_eq_some htaken]
        dsimp only
        rw [ih hrest, fresh_congr hsame, taken?_congr hsame, fresh_cons htaken,
          taken?_cons htaken, List.append_assoc]
        rfl

end FilterQuery.Registry
