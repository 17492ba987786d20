import FilterQuery.Registry.Catalog
import FilterQuery.Proofs.Outcome
import FilterQuery.Proofs.Registry.Registration
/-!
# Calls on a registry in one place

Each call on a catalog comes to the same as registering with the definitions in a list: it
answers alike, and leaves the registry that they make.  So the table and the order never part.
-/

namespace FilterQuery

def Schema.answer : Option String → Except Schema.Error Unit
  | none => .ok ()
  | some name => .error (.duplicateName name)

namespace Catalog

variable {catalog other : Catalog} {registry another : Registry} {definition : Definition}
  {table : Table} {name : String}

/-! ## One call -/

theorem call_bind {α β : Type} (catalog : Catalog) (action : Change α) (next : α → Change β) :
    catalog.call (action >>= next) =
      match catalog.call action with
      | (.ok a, later) => later.call (next a)
      | (.error error, later) => (.error error, later) := by
  rw [call, Outcome.run_bind, ← call]
  rcases catalog.call action with ⟨_ | _, _⟩ <;> rfl

theorem call_register (catalog : Catalog) (definition : Definition) :
    catalog.call (register definition) =
      if catalog.contains definition.name then
        (.error (.duplicateName definition.name), catalog)
      else
        (.ok (), ⟨catalog.table.put definition.name definition,
          catalog.order ++ [definition.name]⟩) := by
  have hget : catalog.call (get : Change Catalog) = (.ok catalog, catalog) := rfl
  unfold register
  rw [call_bind, hget]
  cases hcontains : catalog.contains definition.name <;> simp only [hcontains] <;> rfl

theorem call_drain_cons (hheld : table name = some definition) (rest : List String) :
    catalog.call (drain table (name :: rest)) =
      match catalog.call (register definition) with
      | (.ok _, later) => later.call (drain (table.remove name) rest)
      | (.error error, later) => (.error error, later) := by
  rw [drain, hheld]
  dsimp only
  rw [call_bind]
  rcases catalog.call (register definition) with ⟨_ | _, _⟩ <;> rfl

/-! ## The registry that a catalog keeps -/

/-- The order of a catalog lists the names of a registry, and its table holds what stands under
them. -/
structure Keeps (catalog : Catalog) (registry : Registry) : Prop where
  nodup : registry.names.Nodup
  names_eq : catalog.names = registry.names
  get?_eq : ∀ name, catalog.get? name = registry.get? name

/-- A call answers as registering does, and keeps the registry that was made. -/
structure Registers (result : Except Schema.Error Unit × Catalog)
    (made : Registry × Option String) : Prop where
  answer_eq : result.1 = Schema.answer made.2
  keeps : result.2.Keeps made.1

theorem keeps_empty : Keeps {} {} where
  nodup := .nil
  names_eq := rfl
  get?_eq _ := rfl

/-- There is one catalog that keeps a registry of distinct names. -/
theorem keeps_iff : catalog.Keeps registry ↔
    registry.names.Nodup ∧ catalog = ofRegistry registry := by
  constructor
  · intro hkeeps
    obtain ⟨table, order⟩ := catalog
    obtain rfl : table = registry.get? := funext hkeeps.get?_eq
    obtain rfl : order = registry.names := hkeeps.names_eq
    exact ⟨hkeeps.nodup, rfl⟩
  · rintro ⟨hnodup, rfl⟩
    exact ⟨hnodup, rfl, fun _ => rfl⟩

namespace Keeps

variable (hkeeps : catalog.Keeps registry)

include hkeeps

theorem contains_eq (name : String) : catalog.contains name = registry.contains name := by
  rw [contains, ← get?, hkeeps.get?_eq, Bool.eq_iff_iff, Registry.isSome_get?_iff,
    Registry.contains_iff]

theorem registry_eq : catalog.registry = registry := by
  have hread : ∀ definition ∈ registry.definitions,
      catalog.table definition.name = some definition :=
    fun definition hmem => (hkeeps.get?_eq _).trans (Lists.find?_of_mem hkeeps.nodup hmem)
  have horder : catalog.order = registry.definitions.map (·.name) := hkeeps.names_eq
  have hall : registry.definitions.filterMap (fun definition => catalog.table definition.name) =
      registry.definitions.filterMap some := List.filterMap_congr hread
  rw [Catalog.registry, horder, List.filterMap_map]
  exact congrArg Registry.mk (hall.trans List.filterMap_some)

theorem register_new (hnew : definition.name ∉ registry.names) :
    ∃ later, catalog.call (register definition) = (.ok (), later) ∧
      later.Keeps ⟨registry.definitions ++ [definition]⟩ := by
  have hcontains : catalog.contains definition.name = false :=
    (hkeeps.contains_eq _).trans (Registry.contains_eq_false_iff.2 hnew)
  refine ⟨_, by rw [call_register, hcontains]; rfl, ?_, ?_, ?_⟩
  · rw [Registry.names_append, List.nodup_append]
    simpa using ⟨hkeeps.nodup, fun other hmem heq => hnew (heq ▸ hmem)⟩
  · rw [Registry.names_append, ← hkeeps.names_eq]
    rfl
  · intro name
    rw [Registry.get?_append_of_new (by simpa using hnew) [] name, ← hkeeps.get?_eq]
    by_cases heq : name = definition.name
    · subst heq
      simp [get?, Table.put, Registry.get?]
    · simp [get?, Table.put, heq]

theorem register_taken (htaken : definition.name ∈ registry.names) :
    catalog.call (register definition) = (.error (.duplicateName definition.name), catalog) := by
  rw [call_register, hkeeps.contains_eq, Registry.contains_iff.2 htaken, if_pos rfl]

/-- What a table holds goes over as far as the names are new. -/
theorem drain {definitions : List Definition} (hnodup : (definitions.map (·.name)).Nodup)
    (hheld : ∀ definition ∈ definitions, table definition.name = some definition) :
    Registers (catalog.call (drain table (definitions.map (·.name))))
      (registry.insertAll definitions) := by
  induction definitions generalizing catalog registry table with
  | nil => exact ⟨rfl, hkeeps⟩
  | cons definition rest ih =>
      obtain ⟨hfirst, hrest⟩ := List.nodup_cons.1 hnodup
      obtain ⟨hhere, hothers⟩ := List.forall_mem_cons.1 hheld
      rw [List.map_cons, call_drain_cons hhere, Registry.insertAll]
      by_cases htaken : definition.name ∈ registry.names
      · rw [Registry.insert?_eq_none htaken, hkeeps.register_taken htaken]
        exact ⟨rfl, hkeeps⟩
      · obtain ⟨later, hcall, hlater⟩ := hkeeps.register_new htaken
        rw [Registry.insert?_eq_some htaken, hcall]
        refine ih hlater hrest ?_
        intro other hmem
        have hne : other.name ≠ definition.name :=
          fun heq => hfirst (List.mem_map.2 ⟨other, hmem, heq⟩)
        rw [Table.remove, if_neg hne]
        exact hothers other hmem

theorem extend (hother : other.Keeps another) :
    Registers (catalog.call (extend other)) (registry.extend another) := by
  have hheld : ∀ definition ∈ another.definitions, other.table definition.name = some definition :=
    fun definition hmem => (hother.get?_eq _).trans (Lists.find?_of_mem hother.nodup hmem)
  have horder : other.order = another.definitions.map (·.name) := hother.names_eq
  rw [Catalog.extend, horder]
  exact hkeeps.drain hother.nodup hheld

end Keeps

end Catalog

end FilterQuery
