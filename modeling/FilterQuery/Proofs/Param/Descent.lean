import FilterQuery.Proofs.Param.Acceptance
/-!
# How a key descends

A field below nested fields is set under the names of these and its own, joined by the delimiter.
Each level takes one name off the key and passes the rest on, and a key that can be read by several
names is read by the longest, of which there is one.  Where no level reads its rest of the key in
another way, the parameter therefore sets the field at the end, and nothing else at any level.
-/

namespace FilterQuery

/-- A filter with a value for one field below a chain of nested fields, and nothing else at any
level. -/
inductive Filter.SetsOnly (name : String) (value : Value) :
    Definition → List String → Filter → Prop
  | field {definition : Definition} {filter : Filter}
      (hdefinition : filter.definition = definition) (hordering : filter.ordering = [])
      (hvalue : filter.get? name = some value)
      (hothers : ∀ other ≠ name, filter.get? other = none) :
      SetsOnly name value definition [] filter
  | nested {definition sub : Definition} {filter below : Filter} {field : String}
      {chain : List String} (hnested : definition.nested? field = some sub)
      (hbelow : SetsOnly name value sub chain below)
      (hdefinition : filter.definition = definition) (hordering : filter.ordering = [])
      (hvalue : filter.get? field = some (.sub below))
      (hothers : ∀ other ≠ field, filter.get? other = none) :
      SetsOnly name value definition (field :: chain) filter

namespace Definition

def keyBelow (chain : List String) (name : String) : String :=
  Text.delimiter.intercalate (chain ++ [name])

/-- A chain of nested fields, each declared by the definition of the one before, that ends in a
field that is not nested, where no level takes its rest of the key for the ordering, for a field
of its own, or for a nested field with a longer name than that of the chain. -/
inductive Descends (declared : DeclaredField) : Definition → List String → Prop
  | field {definition : Definition} (hmem : declared ∈ definition.fields)
      (hkind : declared.kind.nested? = none) : Descends declared definition []
  | nested {definition sub : Definition} {field : String} {chain : List String}
      (hnested : definition.nested? field = some sub) (hbelow : Descends declared sub chain)
      (hordering : keyBelow (field :: chain) declared.name ≠ definition.constants.orderingField)
      (hfield : definition.field? (keyBelow (field :: chain) declared.name) = none)
      (hlongest : ∀ other rest,
        definition.Reads (keyBelow (field :: chain) declared.name) other rest →
          ¬ field.length < other.length) :
      Descends declared definition (field :: chain)

variable {definition sub : Definition} {declared : DeclaredField} {chain : List String}
  {validate : Bool} {filter : Filter} {field name key rest raw : String} {value : Value}
  {error : BindError}

/-! ## Keys -/

theorem keyBelow_nil (name : String) : keyBelow [] name = name :=
  String.intercalate_singleton

theorem keyBelow_cons (field : String) (chain : List String) (name : String) :
    keyBelow (field :: chain) name = field ++ Text.delimiter ++ keyBelow chain name := by
  unfold keyBelow
  rw [List.cons_append, String.intercalate_cons_of_ne_nil (by simp)]

theorem keyBelow_ne_empty (hnamed : name ≠ "") (chain : List String) :
    keyBelow chain name ≠ "" := by
  cases chain with
  | nil => rwa [keyBelow_nil]
  | cons field chain =>
      have hdelimiter : Text.delimiter ≠ "" := by decide
      simp [keyBelow_cons, String.append_eq_empty_iff, hdelimiter]

/-! ## Routes down a chain -/

theorem Descends.route_nil (hdescends : Descends declared definition [])
    (hbuilt : definition.Built) :
    definition.route (keyBelow [] declared.name) = .leaf declared := by
  obtain ⟨hmem, hkind⟩ := hdescends
  exact (hbuilt.route_eq_leaf_iff hmem hkind).2 (keyBelow_nil _)

theorem Descends.route_cons (hdescends : Descends declared definition (field :: chain))
    (hnamed : declared.name ≠ "") :
    definition.route (keyBelow (field :: chain) declared.name) =
      .nested field (keyBelow chain declared.name) := by
  obtain _ | ⟨hnested, _, hordering, hfield, hlongest⟩ := hdescends
  obtain ⟨found, hfound, hkind⟩ := Option.bind_eq_some_iff.1 hnested
  have hreads : definition.Reads (keyBelow (field :: chain) declared.name) field
      (keyBelow chain declared.name) :=
    ⟨⟨found, List.mem_of_find?_eq_some hfound, name_of_field? hfound,
      Option.isSome_of_eq_some hkind⟩, (keyBelow_cons ..).symm, keyBelow_ne_empty hnamed chain⟩
  exact route_eq_nested_iff.2 ⟨hordering, hfield, hreads,
    fun other rest hother => Nat.le_of_not_lt (hlongest other rest hother)⟩

/-! ## One level -/

theorem bind_of_leaf (validate : Bool) (hroute : definition.route key = .leaf declared)
    (raw : String) :
    definition.bind validate [⟨key, raw⟩] =
      declared.kind.read declared.name raw >>= (Filter.blank definition).assign key := by
  rw [bind_eq, List.foldlM_cons]
  simp only [bindParam, hroute, List.foldlM_nil, Filter.get?_blank, Value.after, bind_assoc,
    pure_bind, bind_pure]

theorem bind_of_nested (validate : Bool) (hroute : definition.route key = .nested field rest)
    (hnested : definition.nested? field = some sub) (raw : String) :
    definition.bind validate [⟨key, raw⟩] =
      sub.bind validate [⟨rest, raw⟩] >>=
        fun below => (Filter.blank definition).assign field (.sub below) := by
  rw [bind_eq, List.foldlM_cons]
  simp only [bindParam, hroute, List.foldlM_nil, Groups.add, List.foldlM_cons, bindGroup,
    hnested, pure_bind, bind_pure]

theorem of_assign_blank (hassign : (Filter.blank definition).assign name value = .ok filter) :
    filter.definition = definition ∧ filter.ordering = [] ∧ filter.get? name = some value ∧
      ∀ other ≠ name, filter.get? other = none := by
  obtain ⟨hdefinition, hordering, hget⟩ := Filter.of_set (Outcome.mapError_eq_ok.1 hassign)
  refine ⟨hdefinition.trans (Filter.definition_blank definition), hordering, ?_, ?_⟩
  · rw [hget, if_pos rfl]
  · intro other hother
    rw [hget, if_neg hother, Filter.get?_blank]

/-! ## The whole chain -/

theorem definition_of_setsOnly (hsets : filter.SetsOnly name value definition chain) :
    filter.definition = definition := by
  cases hsets with
  | field hdefinition => exact hdefinition
  | nested _ _ hdefinition => exact hdefinition

theorem Descends.bind_of_read (hdescends : Descends declared definition chain)
    (hbuilt : definition.Built) (hnamed : declared.name ≠ "") (validate : Bool)
    (hread : declared.kind.read declared.name raw = .ok value) :
    ∃ filter, definition.bind validate [⟨keyBelow chain declared.name, raw⟩] = .ok filter ∧
      filter.SetsOnly declared.name value definition chain := by
  induction hdescends with
  | @field definition hmem hkind =>
      have hroute := (Descends.field hmem hkind).route_nil hbuilt
      obtain ⟨filter, hassign⟩ := exists_assign (Filter.definition_blank definition)
        (hbuilt.regular.field?_of_mem hmem)
        (accepts_of_isLeaf hkind (FieldKind.isLeaf_of_read hread))
      obtain ⟨hdefinition, hordering, hvalue, hothers⟩ := of_assign_blank hassign
      refine ⟨filter, ?_, .field hdefinition hordering hvalue hothers⟩
      rw [bind_of_leaf validate hroute, hread, keyBelow_nil]
      exact hassign
  | @nested definition sub field chain hnested hbelow hordering hfield hlongest ih =>
      have hroute :=
        (Descends.nested hnested hbelow hordering hfield hlongest).route_cons hnamed
      obtain ⟨below, hbind, hsets⟩ := ih (hbuilt.of_nested? hnested)
      obtain ⟨filter, hassign⟩ := exists_assign_sub (Filter.definition_blank definition) hnested
        (definition_of_setsOnly hsets)
      obtain ⟨hdefinition, hempty, hvalue, hothers⟩ := of_assign_blank hassign
      refine ⟨filter, ?_, .nested hnested hsets hdefinition hempty hvalue hothers⟩
      rw [bind_of_nested validate hroute hnested, hbind]
      exact hassign

theorem Descends.bind_of_read_error (hdescends : Descends declared definition chain)
    (hbuilt : definition.Built) (hnamed : declared.name ≠ "") (validate : Bool)
    (hread : declared.kind.read declared.name raw = .error error) :
    definition.bind validate [⟨keyBelow chain declared.name, raw⟩] = .error error := by
  induction hdescends with
  | @field definition hmem hkind =>
      have hroute := (Descends.field hmem hkind).route_nil hbuilt
      rw [bind_of_leaf validate hroute, hread]
      rfl
  | @nested definition sub field chain hnested hbelow hordering hfield hlongest ih =>
      have hroute :=
        (Descends.nested hnested hbelow hordering hfield hlongest).route_cons hnamed
      rw [bind_of_nested validate hroute hnested, ih (hbuilt.of_nested? hnested)]
      rfl

/-- The key of a field below a chain of nested fields sets that field and nothing else at any
level, if the text is read for its kind, and is refused otherwise.  At any level, a key that names
nothing there and can be read by nested fields is routed to the longest of their names, and there
is one such name. -/
theorem Built.bind_descends (hbuilt : definition.Built)
    (hdescends : Descends declared definition chain) (hnamed : declared.name ≠ "")
    (validate : Bool) (raw : String) :
    ((∃ filter, definition.bind validate [⟨keyBelow chain declared.name, raw⟩] = .ok filter) ↔
      ∃ value, declared.kind.read declared.name raw = .ok value) ∧
    (∀ filter, definition.bind validate [⟨keyBelow chain declared.name, raw⟩] = .ok filter →
      ∃ value, declared.kind.read declared.name raw = .ok value ∧
        filter.SetsOnly declared.name value definition chain) ∧
    ∀ (level : Definition) key name rest, key ≠ level.constants.orderingField →
      level.field? key = none → level.Reads key name rest →
      ∃ longest below, level.route key = .nested longest below ∧
        level.Reads key longest below ∧
        ∀ other more, level.Reads key other more → other ≠ longest →
          other.length < longest.length := by
  have hset : ∀ filter,
      definition.bind validate [⟨keyBelow chain declared.name, raw⟩] = .ok filter →
      ∃ value, declared.kind.read declared.name raw = .ok value ∧
        filter.SetsOnly declared.name value definition chain := by
    intro filter hbind
    cases hread : declared.kind.read declared.name raw with
    | error error =>
        rw [hdescends.bind_of_read_error hbuilt hnamed validate hread] at hbind
        cases hbind
    | ok value =>
        obtain ⟨found, hfound, hsets⟩ := hdescends.bind_of_read hbuilt hnamed validate hread
        rw [hfound] at hbind
        cases hbind
        exact ⟨value, rfl, hsets⟩
  refine ⟨⟨?_, ?_⟩, hset, ?_⟩
  · rintro ⟨filter, hbind⟩
    obtain ⟨value, hread, _⟩ := hset filter hbind
    exact ⟨value, hread⟩
  · rintro ⟨value, hread⟩
    obtain ⟨filter, hbind, _⟩ := hdescends.bind_of_read hbuilt hnamed validate hread
    exact ⟨filter, hbind⟩
  · intro level key name rest hordering hfield hreads
    exact exists_route_of_reads hordering hfield hreads

/-! ## The chief editor of a magazine -/

namespace Sample

def magazineDraft : Draft :=
  { name := "Magazine",
    fields := [⟨"editor", some (.nested writer)⟩, ⟨"editor__chief", some (.nested writer)⟩] }

def magazine : Definition :=
  ⟨"Magazine", [⟨.plain "editor", .nested writer⟩, ⟨.plain "editor__chief", .nested writer⟩], {}⟩

def issueDraft : Draft :=
  { name := "Issue", fields := [⟨"magazine", some (.nested magazine)⟩] }

def issue : Definition :=
  ⟨"Issue", [⟨.plain "magazine", .nested magazine⟩], {}⟩

theorem magazine_built : magazine.Built := by
  have hbuild : magazineDraft.build = .ok magazine := by rfl
  refine .of_draft hbuild ?_
  intro field hmem sub hkind
  rcases List.mem_pair.1 hmem with rfl | rfl <;> cases hkind <;> exact writer_built

theorem issue_built : issue.Built := by
  have hbuild : issueDraft.build = .ok issue := by rfl
  refine .of_draft hbuild ?_
  intro field hmem sub hkind
  cases List.mem_singleton.1 hmem
  cases hkind
  exact magazine_built

theorem magazine_descends :
    Descends ⟨.plain "name", .string⟩ magazine ["editor__chief"] := by
  have hkey : keyBelow ["editor__chief"] "name" = "editor__chief__name" := by
    simp [keyBelow, Text.delimiter]
  have hreadings : magazine.nestedReadings "editor__chief__name" =
      [("editor", "chief__name"), ("editor__chief", "name")] := by rfl
  refine .nested rfl (.field (.head _) rfl) ?_ ?_ ?_
  · exact hkey ▸ by decide
  · exact hkey ▸ rfl
  · intro other rest hother
    have hmem := mem_nestedReadings.2 (hkey ▸ hother)
    rw [hreadings] at hmem
    rcases List.mem_pair.1 hmem with heq | heq <;> cases heq <;> decide

theorem issue_descends :
    Descends ⟨.plain "name", .string⟩ issue ["magazine", "editor__chief"] := by
  have hkey : keyBelow ["magazine", "editor__chief"] "name" = "magazine__editor__chief__name" := by
    simp [keyBelow, Text.delimiter]
  have hreadings : issue.nestedReadings "magazine__editor__chief__name" =
      [("magazine", "editor__chief__name")] := by rfl
  refine .nested rfl magazine_descends ?_ ?_ ?_
  · exact hkey ▸ by decide
  · exact hkey ▸ rfl
  · intro other rest hother
    have hmem := mem_nestedReadings.2 (hkey ▸ hother)
    rw [hreadings] at hmem
    cases List.mem_singleton.1 hmem
    decide

/-- The key of the chief editor begins like one of the other editor, and is not taken for it. -/
theorem issue_chief :
    issue.Built ∧ Descends ⟨.plain "name", .string⟩ issue ["magazine", "editor__chief"] ∧
      (∃ filter,
        issue.bind true [⟨keyBelow ["magazine", "editor__chief"] "name", "ann"⟩] = .ok filter ∧
        filter.SetsOnly "name" (.scalar (.string "ann")) issue ["magazine", "editor__chief"]) ∧
      magazine.Reads "editor__chief__name" "editor" "chief__name" ∧
      magazine.route "editor__chief__name" = .nested "editor__chief" "name" := by
  have hnamed : (⟨.plain "name", .string⟩ : DeclaredField).name ≠ "" := by decide
  obtain ⟨hbinds, hsets, _⟩ := issue_built.bind_descends issue_descends hnamed true "ann"
  obtain ⟨filter, hbind⟩ := hbinds.2 ⟨.scalar (.string "ann"), rfl⟩
  obtain ⟨value, hread, honly⟩ := hsets filter hbind
  cases hread
  have heditor : magazine.Reads "editor__chief__name" "editor" "chief__name" :=
    mem_nestedReadings.1 (.head _)
  exact ⟨issue_built, issue_descends, ⟨filter, hbind, honly⟩, heditor, rfl⟩

end Sample

end Definition

end FilterQuery
