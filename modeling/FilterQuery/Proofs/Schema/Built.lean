import FilterQuery.Proofs.Definition.Built
import FilterQuery.Proofs.Schema.Loading
import FilterQuery.Proofs.Schema.Reading
/-!
# Definitions of documents were built

A document never holds a definition inside another; it refers to it by name.  What a name
resolves to was therefore built, together with all that it refers to, as soon as the known
definitions were.
-/

namespace FilterQuery

def Registry.Built (registry : Registry) : Prop :=
  ∀ definition ∈ registry.definitions, definition.Built

namespace Schema

/-- An outline that names the definitions of its nested fields and holds none of them. -/
def Outline.Written (outline : Outline) : Prop :=
  ∀ field ∈ outline.fields, ∀ sub, field.kind ≠ .given (.nested sub)

/-! ## Outlines of documents -/

theorem kindOfName?_ne_nested {name : String} {sub : Definition} :
    kindOfName? name ≠ some (.nested sub) := by
  unfold kindOfName?
  split <;> simp

theorem outlineKind_ne_nested {field : String} {kind reference : Option String}
    {sub : Definition} : outlineKind field kind reference ≠ .ok (.given (.nested sub)) := by
  intro hkind
  unfold outlineKind at hkind
  cases kind with
  | none => cases reference <;> cases hkind
  | some name =>
      cases hname : kindOfName? name with
      | none =>
          simp only [hname] at hkind
          cases hkind
      | some kind =>
          simp only [hname] at hkind
          cases reference <;> cases hkind
          exact kindOfName?_ne_nested hname

theorem OutlineField.ne_nested_of_ofValue {value : Yaml.Value} {field : OutlineField}
    (hread : OutlineField.ofValue value = .ok field) (sub : Definition) :
    field.kind ≠ .given (.nested sub) := by
  rcases OutlineField.ofValue_eq_ok_iff.1 hread with ⟨_, hkind⟩ | ⟨_, _, _, hkind⟩
  · rw [hkind]
    nofun
  · intro hnested
    rw [hnested] at hkind
    exact outlineKind_ne_nested hkind

theorem Outline.written_of_ofValue {document : Yaml.Value} {outline : Outline}
    (hread : Outline.ofValue document = .ok outline) : outline.Written := by
  obtain ⟨_, value, _, hsection⟩ := Outline.ofValue_eq_ok_iff.1 hread
  intro field hmem sub
  obtain ⟨entry, _, hentry⟩ :=
    Lists.exists_of_forall₂ (Outcome.mapM_eq_ok.1 hsection.fields) hmem
  exact OutlineField.ne_nested_of_ofValue hentry sub

theorem written_of_outlines {known : Registry} {earlier all : List Outline}
    {documents : List Yaml.Value} (hread : outlines known earlier documents = .ok all)
    (hearlier : ∀ outline ∈ earlier, outline.Written) : ∀ outline ∈ all, outline.Written := by
  induction documents generalizing earlier with
  | nil =>
      cases hread
      exact hearlier
  | cons document rest ih =>
      obtain ⟨outline, houtline, hrest⟩ := Outcome.bind_eq_ok.1 hread
      split at hrest
      · cases hrest
      · apply ih hrest
        intro other hmem
        rcases List.mem_append.1 hmem with hmem | hmem
        · exact hearlier other hmem
        · exact List.mem_singleton.1 hmem ▸ Outline.written_of_ofValue houtline

/-! ## Definitions of outlines -/

theorem Resolves.built {all : List Outline} {known : Registry} (hknown : known.Built)
    (hwritten : ∀ outline ∈ all, outline.Written) {name : String} {definition : Definition}
    (hresolves : Resolves all known name definition) : definition.Built := by
  induction hresolves with
  | known _ hget => exact hknown _ (List.mem_of_find?_eq_some hget)
  | outline definitionOf hfind _ hbuild ih =>
      refine .of_draft hbuild ?_
      intro draft hmem sub hkind
      obtain ⟨field, hfield, rfl⟩ := List.mem_map.1 hmem
      unfold OutlineField.draft at hkind
      cases hfieldKind : field.kind with
      | inferred =>
          rw [hfieldKind] at hkind
          cases hkind
      | given kind =>
          rw [hfieldKind] at hkind
          cases hkind
          exact absurd hfieldKind (hwritten _ (mem_of_outline? hfind) field hfield sub)
      | reference name =>
          rw [hfieldKind] at hkind
          cases hkind
          exact ih name (Outline.mem_references hfield hfieldKind)

/-- The definitions that documents load as were built. -/
theorem built_of_ofDocuments {known : Registry} (hknown : known.Built)
    {documents : List Yaml.Value} {registry : Registry}
    (hload : ofDocuments known documents = .ok registry) : registry.Built := by
  obtain ⟨all, hall, hregister⟩ := Outcome.bind_eq_ok.1 hload
  have hwritten : ∀ outline ∈ all, outline.Written :=
    written_of_outlines hall fun _ hmem => absurd hmem List.not_mem_nil
  have hsound : Resolved.Sound all known [] := nofun
  obtain ⟨definitions, hdefinitions, hresolves⟩ := register_sound hsound hregister
  intro definition hmem
  rw [hdefinitions, List.nil_append] at hmem
  obtain ⟨outline, _, hdefinition⟩ := Lists.exists_of_forall₂ hresolves hmem
  exact hdefinition.built hknown hwritten

end Schema

end FilterQuery
