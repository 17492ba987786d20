import FilterQuery.Proofs.Registry.Catalog
/-!
# Runs of calls on a registry

Catalogs come about by calls on empty ones, and others that came about so are emptied into them.
Between calls the table holds what the order lists, each name once; a call that is refused leaves
what it had done before, which for a single definition is nothing.
-/

namespace FilterQuery.Catalog

variable {catalog : Catalog}

def outcome (catalog : Catalog) (action : Change Unit) : Except Schema.Error Unit :=
  (catalog.call action).1

def after (catalog : Catalog) (action : Change Unit) : Catalog :=
  (catalog.call action).2

/-- A catalog that was made by calls, granted or refused, on an empty one. -/
inductive Made : Catalog → Prop
  | empty : Made {}
  | register {catalog : Catalog} (hmade : Made catalog) (definition : Definition) :
      Made (catalog.after (register definition))
  | extend {catalog other : Catalog} (hmade : Made catalog) (hother : Made other) :
      Made (catalog.after (extend other))

theorem Made.exists_keeps (hmade : catalog.Made) : ∃ registry, catalog.Keeps registry := by
  induction hmade with
  | empty => exact ⟨{}, keeps_empty⟩
  | @register catalog _ definition ih =>
      obtain ⟨registry, hkeeps⟩ := ih
      by_cases htaken : definition.name ∈ registry.names
      · refine ⟨registry, ?_⟩
        rwa [after, hkeeps.register_taken htaken]
      · obtain ⟨later, hcall, hlater⟩ := hkeeps.register_new htaken
        refine ⟨⟨registry.definitions ++ [definition]⟩, ?_⟩
        rwa [after, hcall]
  | extend _ _ ih ihother =>
      obtain ⟨registry, hkeeps⟩ := ih
      obtain ⟨another, hother⟩ := ihother
      exact ⟨_, (hkeeps.extend hother).keeps⟩

end FilterQuery.Catalog

/-! ## Registries that calls make -/

namespace FilterQuery.Registry

variable {registry other : Registry} {definition : Definition} {definitions : List Definition}

def Kept (registry : Registry) : Prop :=
  ∃ catalog : Catalog, catalog.Made ∧ catalog.Keeps registry

theorem kept_empty : Kept {} :=
  ⟨{}, .empty, Catalog.keeps_empty⟩

theorem Kept.insert (hkept : registry.Kept) (hnew : definition.name ∉ registry.names) :
    Kept ⟨registry.definitions ++ [definition]⟩ := by
  obtain ⟨catalog, hmade, hkeeps⟩ := hkept
  obtain ⟨later, hcall, hlater⟩ := hkeeps.register_new hnew
  refine ⟨later, ?_, hlater⟩
  have hregister := hmade.register definition
  rwa [Catalog.after, hcall] at hregister

theorem Kept.extend (hkept : registry.Kept) (hother : other.Kept) :
    (registry.extend other).1.Kept := by
  obtain ⟨catalog, hmade, hkeeps⟩ := hkept
  obtain ⟨another, hanother, hheld⟩ := hother
  exact ⟨_, hmade.extend hanother, (hkeeps.extend hheld).keeps⟩

theorem Kept.append (hkept : registry.Kept)
    (hnodup : (registry.names ++ definitions.map (·.name)).Nodup) :
    Kept ⟨registry.definitions ++ definitions⟩ := by
  induction definitions generalizing registry with
  | nil => rwa [List.append_nil]
  | cons definition rest ih =>
      have hnew : definition.name ∉ registry.names := fun hmem =>
        (List.nodup_append.1 hnodup).2.2 _ hmem _ (.head _) rfl
      have hrest : (names ⟨registry.definitions ++ [definition]⟩ ++
          rest.map (·.name)).Nodup := by
        rwa [names_append, List.append_assoc]
      have hall := ih (hkept.insert hnew) hrest
      rwa [List.append_assoc] at hall

theorem kept_of_nodup (hnodup : registry.names.Nodup) : registry.Kept := by
  have hall : (names {} ++ registry.definitions.map (·.name)).Nodup := hnodup
  exact kept_empty.append hall

end FilterQuery.Registry

namespace FilterQuery.Catalog

variable {catalog other : Catalog} {registry another : Registry}

/-! ## Between calls -/

/-- The catalogs that calls make are those of the registries of distinct names. -/
theorem made_iff : catalog.Made ↔
    ∃ registry : Registry, registry.names.Nodup ∧ catalog = ofRegistry registry := by
  constructor
  · intro hmade
    obtain ⟨registry, hkeeps⟩ := hmade.exists_keeps
    exact ⟨registry, keeps_iff.1 hkeeps⟩
  · rintro ⟨registry, hnodup, rfl⟩
    obtain ⟨catalog, hmade, hkeeps⟩ := Registry.kept_of_nodup hnodup
    rwa [← (keeps_iff.1 hkeeps).2]

/-- The table of a catalog holds what its order lists, each name once. -/
structure Coherent (catalog : Catalog) : Prop where
  nodup : catalog.names.Nodup
  contains_iff : ∀ name, catalog.contains name ↔ name ∈ catalog.names
  isSome_get?_iff : ∀ name, (catalog.get? name).isSome ↔ name ∈ catalog.names
  name_eq : ∀ name definition, catalog.get? name = some definition → definition.name = name
  size_eq : catalog.size = catalog.names.length

theorem Keeps.coherent (hkeeps : catalog.Keeps registry) : catalog.Coherent where
  nodup := hkeeps.names_eq ▸ hkeeps.nodup
  contains_iff name := by
    rw [hkeeps.contains_eq, Registry.contains_iff, hkeeps.names_eq]
  isSome_get?_iff name := by
    rw [hkeeps.get?_eq, Registry.isSome_get?_iff, hkeeps.names_eq]
  name_eq name definition hget := by
    rw [hkeeps.get?_eq] at hget
    simpa using List.find?_some hget
  size_eq := rfl

/-! ## One call -/

/-- A definition is registered where its name is new; otherwise nothing changes. -/
structure Accepts (catalog : Catalog) (definition : Definition) : Prop where
  refused_iff : (∃ error, catalog.outcome (register definition) = .error error) ↔
    definition.name ∈ catalog.names
  refused : ∀ error, catalog.outcome (register definition) = .error error →
    error = .duplicateName definition.name ∧ catalog.after (register definition) = catalog
  granted : catalog.outcome (register definition) = .ok () →
    (catalog.after (register definition)).names = catalog.names ++ [definition.name] ∧
    ∀ name, (catalog.after (register definition)).get? name =
      if name = definition.name then some definition else catalog.get? name

theorem Coherent.accepts (hcoherent : catalog.Coherent) (definition : Definition) :
    catalog.Accepts definition := by
  have hcall := call_register catalog definition
  by_cases htaken : definition.name ∈ catalog.names
  · rw [if_pos ((hcoherent.contains_iff _).2 htaken)] at hcall
    have houtcome : catalog.outcome (register definition) =
        .error (.duplicateName definition.name) := congrArg Prod.fst hcall
    refine ⟨⟨fun _ => htaken, fun _ => ⟨_, houtcome⟩⟩, ?_, ?_⟩
    · intro error herror
      rw [houtcome] at herror
      cases herror
      exact ⟨rfl, congrArg Prod.snd hcall⟩
    · intro hok
      rw [houtcome] at hok
      cases hok
  · rw [if_neg (mt (hcoherent.contains_iff _).1 htaken)] at hcall
    have houtcome : catalog.outcome (register definition) = .ok () := congrArg Prod.fst hcall
    refine ⟨⟨?_, fun h => absurd h htaken⟩, ?_, ?_⟩
    · rintro ⟨error, herror⟩
      rw [houtcome] at herror
      cases herror
    · intro error herror
      rw [houtcome] at herror
      cases herror
    · intro _
      rw [after, hcall]
      exact ⟨rfl, fun _ => rfl⟩

/-- What another catalog holds under some names has gone over. -/
structure Takes (catalog other : Catalog) (moved : List String) (later : Catalog) : Prop where
  names_eq : later.names = catalog.names ++ moved
  get?_eq : ∀ name, later.get? name =
    if name ∈ moved then other.get? name else catalog.get? name

/-- Another catalog goes over in its order, up to the first name that is taken. -/
structure Absorbs (catalog other : Catalog) : Prop where
  granted_iff : catalog.outcome (extend other) = .ok () ↔
    catalog.names.Disjoint other.names
  granted : catalog.outcome (extend other) = .ok () →
    catalog.Takes other other.names (catalog.after (extend other))
  refused : ∀ error, catalog.outcome (extend other) = .error error →
    ∃ moved name rest, other.names = moved ++ name :: rest ∧ catalog.names.Disjoint moved ∧
      name ∈ catalog.names ∧ error = .duplicateName name ∧
      catalog.Takes other moved (catalog.after (extend other))

theorem Keeps.takes {later : Catalog} {moved rest : List Definition}
    (hkeeps : catalog.Keeps registry) (hother : other.Keeps ⟨moved ++ rest⟩)
    (hnew : ∀ definition ∈ moved, definition.name ∉ registry.names)
    (hlater : later.Keeps ⟨registry.definitions ++ moved⟩) :
    catalog.Takes other (moved.map (·.name)) later where
  names_eq := by rw [hlater.names_eq, Registry.names_append, hkeeps.names_eq]
  get?_eq name := by
    rw [hlater.get?_eq, Registry.get?_append_of_new hnew rest, hkeeps.get?_eq, hother.get?_eq]

theorem Keeps.absorbs (hkeeps : catalog.Keeps registry) (hother : other.Keeps another) :
    catalog.Absorbs other := by
  have hregisters := hkeeps.extend hother
  rw [Registry.extend, Registry.insertAll_eq hother.nodup] at hregisters
  have houtcome : catalog.outcome (Catalog.extend other) =
      Schema.answer (registry.taken? another.definitions) := hregisters.answer_eq
  have hnames : other.names = another.definitions.map (·.name) := hother.names_eq
  have hdisjoint : registry.taken? another.definitions = none ↔
      catalog.names.Disjoint other.names := by
    rw [Registry.taken?_eq_none_iff, hkeeps.names_eq, hnames, Registry.disjoint_names_iff]
  cases htaken : registry.taken? another.definitions with
  | none =>
      have hnew := Registry.taken?_eq_none_iff.1 htaken
      have hlater := hregisters.keeps
      rw [Registry.fresh_of_new hnew] at hlater
      rw [htaken] at houtcome
      refine ⟨⟨fun _ => hdisjoint.1 htaken, fun _ => houtcome⟩, fun _ => ?_, ?_⟩
      · have hwhole : other.Keeps ⟨another.definitions ++ []⟩ := by rwa [List.append_nil]
        rw [hnames]
        exact hkeeps.takes hwhole hnew hlater
      · intro error herror
        rw [houtcome] at herror
        cases herror
  | some name =>
      -- What stands before the first taken name goes over, and the rest is left behind.
      obtain ⟨hmem, first, rest, rfl, hsplit⟩ := Registry.exists_of_taken?_eq_some htaken
      have hnew : ∀ definition ∈ registry.fresh another.definitions,
          definition.name ∉ registry.names := fun _ => Registry.new_of_mem_fresh
      have hwhole : other.Keeps ⟨registry.fresh another.definitions ++ first :: rest⟩ := by
        rwa [← hsplit]
      rw [htaken] at houtcome
      refine ⟨⟨fun hok => ?_, fun hnone => ?_⟩, fun hok => ?_, ?_⟩
      · rw [houtcome] at hok
        cases hok
      · rw [hdisjoint.2 hnone] at htaken
        cases htaken
      · rw [houtcome] at hok
        cases hok
      · intro error herror
        rw [houtcome] at herror
        cases herror
        refine ⟨(registry.fresh another.definitions).map (·.name), first.name,
          rest.map (·.name), ?_, ?_, hkeeps.names_eq ▸ hmem, rfl, ?_⟩
        · rw [hwhole.names_eq]
          exact List.map_append
        · rw [hkeeps.names_eq]
          exact Registry.disjoint_names_iff.2 hnew
        · exact hkeeps.takes hwhole hnew hregisters.keeps

end FilterQuery.Catalog
