import FilterQuery.Proofs.Definition.Refusal
import FilterQuery.Proofs.Schema.Documents
/-!
# Empty names

A field that is declared has a name and stands at a path, since it is refused otherwise.  The
field that is added for a search is not checked for its name: a definition has a field without
a name exactly where its search goes by the empty name.
-/

namespace FilterQuery

/-- All fields of a definition have a name, and a path in the document. -/
def Definition.Named (definition : Definition) : Prop :=
  ∀ declared ∈ definition.fields, declared.name ≠ "" ∧ declared.field.path ≠ ""

/-! ## Declared fields -/

theorem intercalate_ne_empty {parts : List String} (hparts : parts ≠ [])
    (hnonempty : ∀ part ∈ parts, part ≠ "") (separator : String) :
    separator.intercalate parts ≠ "" := by
  obtain ⟨part, rest, rfl⟩ := List.exists_cons_of_ne_nil hparts
  have hpart := hnonempty part (.head _)
  cases rest with
  | nil => rwa [String.intercalate_singleton]
  | cons next rest =>
      rw [String.intercalate_cons_cons]
      intro hempty
      simp [hpart] at hempty

theorem FieldName.nonempty_of_parse {name : String} {field : FieldName}
    (hparse : parse name = .ok field) : field.name ≠ "" ∧ field.path ≠ "" := by
  obtain ⟨hname, rfl | ⟨segments, operator, hsegments, hnonempty, rfl⟩⟩ := parse_cases hparse
  · exact ⟨hname, hname⟩
  · exact ⟨hname, intercalate_ne_empty hsegments hnonempty "."⟩

namespace Draft

variable {draft : Draft} {definition : Definition}

theorem Acceptable.name_ne_empty (hacceptable : draft.Acceptable) {field : FieldDraft}
    (hmem : field ∈ draft.fields) : field.name ≠ "" := by
  by_cases hwhole : field.Whole draft.constants
  · exact hacceptable.named field hmem hwhole
  · obtain ⟨name, hname⟩ := hacceptable.parsed field hmem hwhole
    exact (FieldName.parse_cases hname).1

theorem Acceptable.nonempty_of_becomes (hacceptable : draft.Acceptable) {field : FieldDraft}
    (hmem : field ∈ draft.fields) {declared : DeclaredField}
    (hbecomes : field.Becomes draft.constants declared) :
    declared.name ≠ "" ∧ declared.field.path ≠ "" := by
  by_cases hwhole : field.Whole draft.constants
  · rw [DeclaredField.name, hbecomes.whole hwhole]
    exact ⟨hacceptable.name_ne_empty hmem, hacceptable.name_ne_empty hmem⟩
  · exact FieldName.nonempty_of_parse (hbecomes.parsed hwhole)

theorem named_iff_of_build (hbuild : draft.build = .ok definition) :
    definition.Named ↔ draft.constants.searchField ≠ some "" := by
  have hacceptable := acceptable_of_build hbuild
  obtain ⟨fields, search, hfields, hall, hsearch⟩ := (yields_of_build hbuild).fields
  unfold Definition.Named
  rw [hfields]
  constructor
  · intro hnamed hempty
    rcases hsearch with ⟨hname, _⟩ | hdeclared
    · cases hempty.symm.trans hname
      exact (hnamed _ (List.mem_append_right fields (.head _))).1 rfl
    · obtain ⟨field, hfield, hname⟩ := List.mem_map.1 (hdeclared "" hempty)
      exact hacceptable.name_ne_empty hfield hname
  · intro hnonempty declared hmem
    rcases List.mem_append.1 hmem with hmem | hmem
    · obtain ⟨field, hfield, hbecomes⟩ := Lists.exists_of_forall₂ hall hmem
      exact hacceptable.nonempty_of_becomes hfield hbecomes
    · rcases hsearch with ⟨hname, _⟩ | _
      · rw [List.mem_singleton.1 hmem]
        have hne : _ ≠ "" := fun hempty => hnonempty (hempty ▸ hname)
        exact ⟨hne, hne⟩
      · cases hmem

theorem exists_fault_of_unnamed (hunnamed : ∃ field ∈ draft.fields, field.name = "") :
    ∃ fault, draft.build = .error fault := by
  obtain ⟨field, hfield, hname⟩ := hunnamed
  cases hbuild : draft.build with
  | error fault => exact ⟨fault, rfl⟩
  | ok definition =>
      exact absurd hname ((acceptable_of_build hbuild).name_ne_empty hfield)

end Draft

/-! ## Definitions of documents -/

namespace Schema

theorem Outline.named_iff_of_build {outline : Outline} {meaning : String → Option Definition}
    {definition : Definition} (hbuild : (outline.draft meaning).build = .ok definition) :
    definition.Named ↔ definition.constants.searchField ≠ some "" := by
  rw [(Draft.yields_of_build hbuild).constants]
  exact Draft.named_iff_of_build hbuild

variable {known : Registry} {text : String}

theorem named_iff_of_load {definition : Definition} (hload : load known text = .ok definition) :
    definition.Named ↔ definition.constants.searchField ≠ some "" := by
  unfold load at hload
  split at hload
  · obtain ⟨outline, _, hresolve⟩ := Outcome.bind_eq_ok.1 hload
    unfold Outline.resolveIn at hresolve
    split at hresolve
    · cases hresolve
    · exact Outline.named_iff_of_build (Outline.build_eq_ok_iff.1 hresolve)
  · cases hload

theorem named_iff_of_loadAll {registry : Registry} (hload : loadAll known text = .ok registry)
    {definition : Definition} (hmem : definition ∈ registry.definitions) :
    definition.Named ↔ definition.constants.searchField ≠ some "" := by
  obtain ⟨documents, _, hload⟩ := Outcome.bind_eq_ok.1 hload
  obtain ⟨all, hread, hresolve⟩ := ofDocuments_eq_ok_iff.1 hload
  obtain ⟨-, hnames, -⟩ := outlines_eq_ok_iff.1 hread
  obtain ⟨outline, houtline, hresolves⟩ := Lists.exists_of_forall₂ hresolve hmem
  cases hresolves with
  | known hnew _ => simp [outline?_of_mem hnames houtline] at hnew
  | outline _ _ _ hbuild => exact Outline.named_iff_of_build hbuild

end Schema

/-- A definition, built or loaded, has a name and a path for each of its fields exactly where
its search does not go by the empty name; a declared field without a name is refused. -/
theorem Definition.fields_named (draft : Draft) (known : Registry) (text : String) :
    (∀ definition, draft.build = .ok definition →
      (definition.Named ↔ draft.constants.searchField ≠ some "")) ∧
    ((∃ field ∈ draft.fields, field.name = "") → ∃ fault, draft.build = .error fault) ∧
    (∀ definition, Schema.load known text = .ok definition →
      (definition.Named ↔ definition.constants.searchField ≠ some "")) ∧
    ∀ registry, Schema.loadAll known text = .ok registry →
      ∀ definition ∈ registry.definitions,
        (definition.Named ↔ definition.constants.searchField ≠ some "") :=
  ⟨fun _ => Draft.named_iff_of_build, Draft.exists_fault_of_unnamed,
    fun _ => Schema.named_iff_of_load, fun _ hload _ => Schema.named_iff_of_loadAll hload⟩

namespace Sample

def album : Definition :=
  ⟨"Album", [⟨.plain "title", .string⟩, ⟨.plain "q", .string⟩],
    { searchField := some "q", searchPaths := ["title"] }⟩

def unnamedSearch : Definition :=
  ⟨"Album", [⟨.plain "", .string⟩], { searchField := some "" }⟩

/-- A search by a name of its own leaves all fields named, and by the empty name it is refused
where it is declared. -/
theorem album_named :
    ((({ name := "Album" } : Draft).field "title").search "q" ["title"]).build = .ok album ∧
      album.Named ∧
      ∃ fault, ((({ name := "Album" } : Draft).field "").search "" []).build = .error fault := by
  have halbum : ((({ name := "Album" } : Draft).field "title").search "q" ["title"]).build =
      .ok album := by rfl
  obtain ⟨hnamed, _⟩ := Definition.fields_named
    ((({ name := "Album" } : Draft).field "title").search "q" ["title"]) {} ""
  obtain ⟨_, hunnamed, _⟩ := Definition.fields_named
    ((({ name := "Album" } : Draft).field "").search "" []) {} ""
  exact ⟨halbum, (hnamed album halbum).2 (by decide), hunnamed ⟨⟨"", none⟩, .head _, rfl⟩⟩

/-- Where it is not declared, a search by the empty name builds. -/
theorem unnamedSearch_builds :
    (({ name := "Album" } : Draft).search "" []).build = .ok unnamedSearch ∧
      ¬ unnamedSearch.Named := by
  refine ⟨by rfl, ?_⟩
  intro hnamed
  exact (hnamed ⟨.plain "", .string⟩ (.head _)).1 rfl

end Sample

end FilterQuery
