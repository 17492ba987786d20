import FilterQuery.Proofs.Schema.Loading
/-!
# What documents load as

Documents that load have new and distinct names, and each loads as what its name resolves to
among all of them.  This is all there is to loading, so what is shown of it later goes by what
names resolve to and not by the order of the search.
-/

namespace FilterQuery.Schema

variable {all : List Outline} {known : Registry}

theorem of_outlines {documents : List Yaml.Value} {earlier : List Outline}
    (hearlier : (earlier.map (·.name)).Nodup)
    (hread : outlines known earlier documents = .ok all) :
    ∃ rest, documents.mapM Outline.ofValue = .ok rest ∧ all = earlier ++ rest ∧
      (all.map (·.name)).Nodup ∧ ∀ outline ∈ rest, known.contains outline.name = false := by
  induction documents generalizing earlier with
  | nil =>
      cases hread
      exact ⟨[], rfl, by simp, hearlier, nofun⟩
  | cons document documents ih =>
      obtain ⟨outline, houtline, hrest⟩ := Outcome.bind_eq_ok.1 hread
      split at hrest
      · cases hrest
      · rename_i hnew
        rw [Bool.or_eq_true, not_or, Bool.not_eq_true, Bool.not_eq_true] at hnew
        have hfresh : outline.name ∉ earlier.map (·.name) :=
          not_mem_of_outline?_eq_none (by simpa using hnew.1)
        have hnodup : ((earlier ++ [outline]).map (·.name)).Nodup := by
          simpa [List.nodup_append] using ⟨hearlier, fun other hmem heq =>
            hfresh (heq ▸ List.mem_map_of_mem hmem)⟩
        obtain ⟨more, hmore, rfl, hnames, hknown⟩ := ih hnodup hrest
        refine ⟨outline :: more, ?_, by simp, hnames, ?_⟩
        · rw [List.mapM_cons, houtline, hmore]
          rfl
        · exact List.forall_mem_cons.2 ⟨hnew.2, hknown⟩

theorem outlines_eq_ok_iff {documents : List Yaml.Value} :
    outlines known [] documents = .ok all ↔
      documents.mapM Outline.ofValue = .ok all ∧ (all.map (·.name)).Nodup ∧
        ∀ outline ∈ all, known.contains outline.name = false := by
  constructor
  · intro hread
    have hempty : (([] : List Outline).map (·.name)).Nodup := .nil
    obtain ⟨rest, hrest, rfl, hnames, hnew⟩ := of_outlines hempty hread
    exact ⟨hrest, hnames, hnew⟩
  · rintro ⟨hread, hnames, hnew⟩
    have hall : outlines known [] documents = .ok ([] ++ all) :=
      outlines_eq_ok hread hnames hnew
    exact hall

/-- Each outline has the definition that its name resolves to. -/
def ResolveTo (all : List Outline) (known : Registry) (outlines : List Outline)
    (definitions : List Definition) : Prop :=
  List.Forall₂ (fun outline definition => Resolves all known outline.name definition)
    outlines definitions

namespace ResolveTo

variable {some : List Outline} {definitions others : List Definition}

theorem names_eq (h : ResolveTo all known some definitions) :
    definitions.map (·.name) = some.map (·.name) := by
  induction h with
  | nil => rfl
  | cons hhead _ ih => rw [List.map_cons, List.map_cons, hhead.name_eq, ih]

theorem unique (h : ResolveTo all known some definitions)
    (hothers : ResolveTo all known some others) : definitions = others := by
  induction h generalizing others with
  | nil => exact (List.forall₂_nil_left_iff.1 hothers).symm
  | cons hhead _ ih =>
      obtain ⟨other, rest, hother, hrest, rfl⟩ := List.forall₂_cons_left_iff.1 hothers
      rw [hhead.unique hother, ih hrest]

theorem get?_eq_some_iff (h : ResolveTo all known some definitions)
    (hnames : (some.map (·.name)).Nodup) {name : String} {definition : Definition} :
    Registry.get? ⟨definitions⟩ name = .some definition ↔
      name ∈ some.map (·.name) ∧ Resolves all known name definition := by
  rw [Registry.get?, Lists.find?_eq_some_iff (h.names_eq ▸ hnames)]
  constructor
  · rintro ⟨hmem, hname⟩
    obtain ⟨outline, houtline, hresolves⟩ := Lists.exists_of_forall₂ h hmem
    have heq : outline.name = name := hresolves.name_eq.symm.trans hname
    exact ⟨heq ▸ List.mem_map_of_mem houtline, heq ▸ hresolves⟩
  · rintro ⟨hmem, hresolves⟩
    obtain ⟨outline, houtline, rfl⟩ := List.mem_map.1 hmem
    obtain ⟨found, hfound, hother⟩ := Lists.exists_of_forall₂ h.flip houtline
    exact ⟨hresolves.unique hother ▸ hfound, hresolves.name_eq⟩

end ResolveTo

/-- Documents load when they can be read together and each name resolves; what they load as
are the definitions that the names resolve to, in the order of the documents. -/
theorem ofDocuments_eq_ok_iff {documents : List Yaml.Value} {registry : Registry} :
    ofDocuments known documents = .ok registry ↔
      ∃ all, outlines known [] documents = .ok all ∧
        ResolveTo all known all registry.definitions := by
  have hsound (all : List Outline) : Resolved.Sound all known [] := nofun
  unfold ofDocuments
  rw [Outcome.bind_eq_ok]
  constructor
  · rintro ⟨all, hread, hregister⟩
    obtain ⟨definitions, hdefinitions, hresolves⟩ := register_sound (hsound all) hregister
    exact ⟨all, hread, hdefinitions ▸ hresolves⟩
  · rintro ⟨all, hread, hresolves⟩
    obtain ⟨-, hnames, -⟩ := outlines_eq_ok_iff.1 hread
    have heach : ∀ outline ∈ all, ∃ definition, Resolves all known outline.name definition := by
      intro outline hmem
      obtain ⟨definition, _, hdefinition⟩ := Lists.exists_of_forall₂ hresolves.flip hmem
      exact ⟨definition, hdefinition⟩
    have hempty : (({} : Registry).names ++ all.map (·.name)).Nodup := hnames
    obtain ⟨result, hresult⟩ := register_eq_ok (hsound all) hempty heach
    obtain ⟨definitions, hdefinitions, hothers⟩ := register_sound (hsound all) hresult
    have hsame : definitions = registry.definitions := ResolveTo.unique hothers hresolves
    refine ⟨all, hread, hresult.trans (congrArg Except.ok ?_)⟩
    cases registry
    cases result
    simpa [hsame] using hdefinitions

theorem names_of_ofDocuments {documents : List Yaml.Value} {registry : Registry}
    (hload : ofDocuments known documents = .ok registry) :
    registry.names.Nodup ∧ ∀ definition ∈ registry.definitions, definition.name ∉ known.names := by
  obtain ⟨all, houtlines, hresolve⟩ := ofDocuments_eq_ok_iff.1 hload
  obtain ⟨_, hnames, hnew⟩ := outlines_eq_ok_iff.1 houtlines
  have hregistry : registry.names = all.map (·.name) := hresolve.names_eq
  refine ⟨hregistry ▸ hnames, ?_⟩
  intro definition hmem
  obtain ⟨outline, houtline, hdefinition⟩ := Lists.exists_of_forall₂ hresolve hmem
  rw [hdefinition.name_eq]
  exact Registry.contains_eq_false_iff.1 (hnew outline houtline)

end FilterQuery.Schema
