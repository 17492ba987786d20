import FilterQuery.Proofs.Engine.Batches
import FilterQuery.Proofs.Registry.Runs
/-!
# What an engine is built from

An engine is built from one source after the other: definitions, files and texts.  What a text
loads as is new to what was there before, so it always goes over; a source fails by itself, for a
name that is taken, a file that cannot be read, or a text that does not load.
-/

namespace FilterQuery

namespace Engine

variable {registry other larger : Registry} {contentOf : String → Option String} {text : String}

/-! ## What a text loads as -/

theorem extend_of_loadAll (hload : Schema.loadAll registry text = .ok other) :
    extend registry other = .ok ⟨registry.definitions ++ other.definitions⟩ := by
  obtain ⟨documents, _, hdocuments⟩ := Outcome.bind_eq_ok.1 hload
  exact extend_of_ofDocuments hdocuments

theorem names_of_loadAll (hload : Schema.loadAll registry text = .ok other) :
    other.names.Nodup ∧ registry.names.Disjoint other.names := by
  obtain ⟨documents, _, hdocuments⟩ := Outcome.bind_eq_ok.1 hload
  obtain ⟨hnodup, hnew⟩ := Schema.names_of_ofDocuments hdocuments
  exact ⟨hnodup, Registry.disjoint_names_iff.2 hnew⟩

theorem names_of_addDocuments {documents : List Yaml.Value}
    (hadd : addDocuments registry documents = .ok larger) :
    larger.names.map some = registry.names.map some ++ documents.map Schema.nameOf? := by
  obtain ⟨loaded, hload, rfl⟩ := addDocuments_eq_ok_iff.1 hadd
  obtain ⟨all, houtlines, hresolve⟩ := Schema.ofDocuments_eq_ok_iff.1 hload
  obtain ⟨hread, _, _⟩ := Schema.outlines_eq_ok_iff.1 houtlines
  rw [Registry.names_append, hresolve.names_eq, Schema.map_nameOf? hread, List.map_append,
    List.map_map]
  rfl

theorem addText_eq_error_iff {error : Error} :
    addText registry text = .error error ↔
      ∃ cause, Schema.loadAll registry text = .error cause ∧ error = .schema cause := by
  unfold addText
  rw [Outcome.bind_eq_error, Outcome.mapError_eq_error]
  constructor
  · rintro (⟨cause, hload, rfl⟩ | ⟨loaded, hload, hextend⟩)
    · exact ⟨cause, hload, rfl⟩
    · rw [extend_of_loadAll (Outcome.mapError_eq_ok.1 hload)] at hextend
      cases hextend
  · rintro ⟨cause, hload, rfl⟩
    exact .inl ⟨cause, hload, rfl⟩

/-! ## Building, source by source -/

inductive Source where
  | definition (given : Definition)
  | file (name : String)
  | text (content : String)

/-- The sources of an engine, in the order in which it takes them. -/
def sources (config : Config) (definitions : List Definition) : List Source :=
  definitions.map .definition ++ (config.files.map .file ++ config.contents.map .text)

def add (contentOf : String → Option String) (registry : Registry) :
    Source → Except Error Registry
  | .definition given =>
      match registry.insert? given with
      | some larger => .ok larger
      | none => .error (.schema (.duplicateName given.name))
  | .file name => addFile contentOf registry name
  | .text content => addText registry content

/-- How a source fails on top of a registry. -/
inductive Source.Fails (contentOf : String → Option String) (registry : Registry) :
    Source → Error → Prop
  | taken {given : Definition} (htaken : given.name ∈ registry.names) :
      Fails contentOf registry (.definition given) (.schema (.duplicateName given.name))
  | unreadable {name : String} (hfile : contentOf name = none) :
      Fails contentOf registry (.file name) (.unreadable name)
  | file {name content : String} {cause : Schema.Error} (hfile : contentOf name = some content)
      (hload : Schema.loadAll registry content = .error cause) :
      Fails contentOf registry (.file name) (.schema cause)
  | text {content : String} {cause : Schema.Error}
      (hload : Schema.loadAll registry content = .error cause) :
      Fails contentOf registry (.text content) (.schema cause)

theorem extend_eq_foldlM (contentOf : String → Option String) (registry : Registry)
    (definitions : List Definition) :
    extend registry ⟨definitions⟩ =
      (definitions.map Source.definition).foldlM (add contentOf) registry := by
  induction definitions generalizing registry with
  | nil => rfl
  | cons definition rest ih =>
      rw [List.map_cons, List.foldlM_cons, add]
      unfold extend Registry.extend Registry.insertAll
      cases registry.insert? definition with
      | none => rfl
      | some larger => exact ih larger

theorem build_eq (contentOf : String → Option String) (config : Config)
    (definitions : List Definition) :
    build contentOf config definitions =
      (fun registry => ⟨registry, config.nestingLimit, config.validateOrdering⟩) <$>
        (sources config definitions).foldlM (add contentOf) {} := by
  rw [sources, List.foldlM_append, ← extend_eq_foldlM]
  simp only [build, List.foldlM_append, List.foldlM_map, map_eq_pure_bind, bind_assoc]
  rfl

theorem Source.Fails.add_eq {source : Source} {error : Error}
    (hfails : source.Fails contentOf registry error) :
    add contentOf registry source = .error error := by
  cases hfails with
  | taken htaken => rw [add, Registry.insert?_eq_none htaken]
  | unreadable hfile => rw [add, addFile, hfile]
  | file hfile hload =>
      rw [add, addFile, hfile]
      exact addText_eq_error_iff.2 ⟨_, hload, rfl⟩
  | text hload => exact addText_eq_error_iff.2 ⟨_, hload, rfl⟩

theorem fails_of_add {source : Source} {error : Error}
    (hadd : add contentOf registry source = .error error) :
    source.Fails contentOf registry error := by
  cases source with
  | definition given =>
      by_cases htaken : given.name ∈ registry.names
      · rw [add, Registry.insert?_eq_none htaken] at hadd
        cases hadd
        exact .taken htaken
      · rw [add, Registry.insert?_eq_some htaken] at hadd
        cases hadd
  | file name =>
      rw [add, addFile] at hadd
      cases hfile : contentOf name with
      | none =>
          rw [hfile] at hadd
          cases hadd
          exact .unreadable hfile
      | some content =>
          rw [hfile] at hadd
          obtain ⟨cause, hload, rfl⟩ := addText_eq_error_iff.1 hadd
          exact .file hfile hload
  | text content =>
      obtain ⟨cause, hload, rfl⟩ := addText_eq_error_iff.1 hadd
      exact .text hload

theorem add_eq_error_iff {source : Source} {error : Error} :
    add contentOf registry source = .error error ↔ source.Fails contentOf registry error :=
  ⟨fails_of_add, Source.Fails.add_eq⟩

theorem kept_of_addText (hkept : registry.Kept) (hadd : addText registry text = .ok larger) :
    larger.Kept := by
  obtain ⟨other, hload, hextend⟩ := Outcome.bind_eq_ok.1 hadd
  have hother := Registry.kept_of_nodup (names_of_loadAll (Outcome.mapError_eq_ok.1 hload)).1
  have hlater := hkept.extend hother
  unfold extend at hextend
  split at hextend
  · rename_i found heq
    cases hextend
    rwa [heq] at hlater
  · cases hextend

theorem kept_of_add {source : Source} (hkept : registry.Kept)
    (hadd : add contentOf registry source = .ok larger) : larger.Kept := by
  cases source with
  | definition given =>
      rw [add] at hadd
      by_cases htaken : given.name ∈ registry.names
      · rw [Registry.insert?_eq_none htaken] at hadd
        cases hadd
      · rw [Registry.insert?_eq_some htaken] at hadd
        cases hadd
        exact hkept.insert htaken
  | file name =>
      rw [add, addFile] at hadd
      split at hadd
      · exact kept_of_addText hkept hadd
      · cases hadd
  | text content => exact kept_of_addText hkept hadd

theorem kept_of_build {config : Config} {definitions : List Definition} {engine : Engine}
    (hengine : build contentOf config definitions = .ok engine) : engine.registry.Kept := by
  rw [build_eq] at hengine
  obtain ⟨registry, hregistry, rfl⟩ := Outcome.map_eq_ok.1 hengine
  exact Outcome.foldlM_invariant (fun _ _ _ => kept_of_add) Registry.kept_empty hregistry

/-- The names of an engine are those of its definitions, then those that the documents of its
files have, then those that the documents of its texts have. -/
theorem names_of_build {config : Config} {definitions : List Definition} {engine : Engine}
    (hengine : build contentOf config definitions = .ok engine) :
    ∃ texts fileBatches textBatches, config.files.mapM contentOf = some texts ∧
      texts.mapM Schema.documents = .ok fileBatches ∧
      config.contents.mapM Schema.documents = .ok textBatches ∧
      engine.registry.names.map some = definitions.map (some ·.name) ++
        fileBatches.flatten.map Schema.nameOf? ++ textBatches.flatten.map Schema.nameOf? := by
  obtain ⟨given, hgiven, hengine⟩ := Outcome.bind_eq_ok.1 hengine
  obtain ⟨withFiles, hfiles, hengine⟩ := Outcome.bind_eq_ok.1 hengine
  obtain ⟨withTexts, hcontents, hengine⟩ := Outcome.bind_eq_ok.1 hengine
  cases hengine
  obtain ⟨texts, htexts, hfold⟩ := texts_of_files hfiles
  obtain ⟨fileBatches, hfileBatches, hfirst⟩ := batches_of_texts hfold
  obtain ⟨textBatches, htextBatches, hsecond⟩ := batches_of_texts hcontents
  refine ⟨texts, fileBatches, textBatches, htexts, hfileBatches, htextBatches, ?_⟩
  rw [names_of_addDocuments (addDocuments_flatten hsecond),
    names_of_addDocuments (addDocuments_flatten hfirst), eq_of_extend hgiven,
    Registry.names_append, List.map_append, List.map_map]
  rfl

/-- However a registry came about, its table holds what its order lists; a definition is
registered where its name is new, and a registry goes over up to the first name that is taken.
What a text loads as goes over whole, so a source of an engine fails by itself, and the names of
an engine stand in the order of its sources. -/
theorem registered_in_order (contentOf : String → Option String) :
    (∀ catalog : Catalog, catalog.Made → catalog.Coherent ∧
      (∀ definition, catalog.Accepts definition) ∧
      ∀ other : Catalog, other.Made → catalog.Absorbs other) ∧
    (∀ (known : Catalog) (text : String) (loaded : Registry), known.Made →
      Schema.loadAll known.registry text = .ok loaded →
      (∃ other : Catalog, other.Made ∧ other.registry = loaded) ∧
      ∀ other : Catalog, other.Made → other.registry = loaded →
        known.outcome (Catalog.extend other) = .ok ()) ∧
    (∀ config definitions error, build contentOf config definitions = .error error ↔
      ∃ before source after registry, sources config definitions = before ++ source :: after ∧
        before.foldlM (add contentOf) {} = .ok registry ∧
        source.Fails contentOf registry error) ∧
    ∀ config definitions engine, build contentOf config definitions = .ok engine →
      engine.registry.Kept ∧
      ∃ texts fileBatches textBatches, config.files.mapM contentOf = some texts ∧
        texts.mapM Schema.documents = .ok fileBatches ∧
        config.contents.mapM Schema.documents = .ok textBatches ∧
        engine.registry.names.map some = definitions.map (some ·.name) ++
          fileBatches.flatten.map Schema.nameOf? ++ textBatches.flatten.map Schema.nameOf? := by
  refine ⟨?_, ?_, ?_, ?_⟩
  · intro catalog hmade
    obtain ⟨registry, hkeeps⟩ := hmade.exists_keeps
    refine ⟨hkeeps.coherent, hkeeps.coherent.accepts, ?_⟩
    intro other hother
    obtain ⟨another, hanother⟩ := hother.exists_keeps
    exact hkeeps.absorbs hanother
  · intro known text loaded hknown hload
    obtain ⟨hnodup, hdisjoint⟩ := names_of_loadAll hload
    obtain ⟨registry, hkeeps⟩ := hknown.exists_keeps
    refine ⟨?_, ?_⟩
    · obtain ⟨other, hother, hloaded⟩ := Registry.kept_of_nodup hnodup
      exact ⟨other, hother, hloaded.registry_eq⟩
    · rintro other hother rfl
      obtain ⟨another, hanother⟩ := hother.exists_keeps
      rw [hkeeps.registry_eq, hanother.registry_eq] at hdisjoint
      rw [(hkeeps.absorbs hanother).granted_iff, hkeeps.names_eq, hanother.names_eq]
      exact hdisjoint
  · intro config definitions error
    simp only [build_eq, Outcome.map_eq_error, Outcome.foldlM_eq_error_iff, add_eq_error_iff]
  · intro config definitions engine hengine
    exact ⟨kept_of_build hengine, names_of_build hengine⟩

/-! ## A definition, a file, and a catalog that stops midway -/

namespace Sample

open Schema.Sample Yaml

def tag : Definition := ⟨"Tag", [], {}⟩

def tagText : String := "filter: {name: Tag}"

def tagTokens : List Token :=
  [.blockMappingStart, .key, .scalar .plain "filter", .value, .flowMappingStart, .key,
    .scalar .plain "name", .value, .scalar .plain "Tag", .flowMappingEnd, .blockEnd]

def tagNode : Node String :=
  .mapping none none [(.scalar none none .plain "filter",
    .mapping none none [(.scalar none none .plain "name", .scalar none none .plain "Tag")])]

def tagValue : Yaml.Value :=
  .mapping [(.string "filter", .mapping [(.string "name", .string "Tag")])]

theorem tag_node : node defaultHandles true false tagTokens = some (tagNode, ⟨[], by decide⟩) := by
  simp [tagTokens, tagNode, node, properties, blockMapping, optionalNode, entryValue, flowMapping,
    flowEntry, behindComma, closesBlock]

theorem tag_documents : Yaml.documents true tagTokens = some [tagNode] := by
  have hend : Yaml.documents false [] = some [] := by
    rw [Yaml.documents]
    rfl
  have hfirst : Yaml.document true tagTokens = some (tagNode, []) := by
    rw [Yaml.document, tag_node]
    rfl
  rw [Yaml.documents]
  dsimp only
  rw [if_pos rfl, if_neg (by decide), hfirst]
  simp [behindEnd, hend, tagTokens]

theorem tag_values : Yaml.values? tagText = some [tagValue] := by
  have htokens : tokens? tagText = some tagTokens := by decide +kernel
  have hdocuments : documents? tagText =
      (Document.ofRoot? tagNode).bind fun document => some [document] := by
    rw [documents?, htokens]
    simp [tag_documents]
  rw [Yaml.values?, hdocuments]
  rfl

theorem tag_loads : Schema.loadAll ⟨[company]⟩ tagText = .ok ⟨[tag]⟩ := by
  have hread : Schema.outlines ⟨[company]⟩ [] [tagValue] = .ok [⟨"Tag", {}, []⟩] := by rfl
  have htag : Schema.Resolves [⟨"Tag", {}, []⟩] ⟨[company]⟩ "Tag" tag :=
    .outline (fun _ => tag) rfl (fun _ hmem => absurd hmem List.not_mem_nil) rfl
  rw [Schema.loadAll, Schema.documents, tag_values]
  exact Schema.ofDocuments_eq_ok_iff.2 ⟨_, hread, .cons htag .nil⟩

def files (name : String) : Option String :=
  if name = "tags.yaml" then some tagText else none

def config : Config := { files := ["tags.yaml"] }

theorem tags_build : build files config [company] =
    .ok ⟨⟨[company, tag]⟩, config.nestingLimit, config.validateOrdering⟩ := by
  have hadd : addFile files ⟨[company]⟩ "tags.yaml" = .ok ⟨[company, tag]⟩ := by
    have htext : files "tags.yaml" = some tagText := if_pos rfl
    rw [addFile, htext]
    exact Outcome.bind_eq_ok.2 ⟨_, Outcome.mapError_eq_ok.2 tag_loads, rfl⟩
  have hfiles : config.files.foldlM (addFile files) ⟨[company]⟩ = .ok ⟨[company, tag]⟩ :=
    Outcome.bind_eq_ok.2 ⟨_, hadd, rfl⟩
  exact Outcome.bind_eq_ok.2 ⟨⟨[company]⟩, rfl, Outcome.bind_eq_ok.2 ⟨_, hfiles, rfl⟩⟩

def companies : Catalog :=
  Catalog.after {} (Catalog.register company)

def tags : Catalog :=
  Catalog.after {} (Catalog.register tag)

def authors : Catalog :=
  (Catalog.after {} (Catalog.register author)).after (Catalog.register company)

theorem tags_registered :
    (companies.Coherent ∧ companies.outcome (Catalog.extend authors) =
      .error (.duplicateName "Company") ∧
      ∃ moved name rest, authors.names = moved ++ name :: rest ∧
        companies.names.Disjoint moved ∧ name ∈ companies.names ∧
        companies.Takes authors moved (companies.after (Catalog.extend authors))) ∧
      (Schema.loadAll companies.registry tagText = .ok tags.registry ∧
        companies.outcome (Catalog.extend tags) = .ok ()) ∧
      (∃ before source after registry, sources config [company, company] =
          before ++ source :: after ∧ before.foldlM (add files) {} = .ok registry ∧
        source.Fails files registry (.schema (.duplicateName "Company"))) ∧
      Registry.Kept ⟨[company, tag]⟩ := by
  obtain ⟨hcalls, hloaded, hfails, hnames⟩ := registered_in_order files
  have hcompanies : companies.Made := .register .empty company
  have hauthors : authors.Made := .register (.register .empty author) company
  obtain ⟨hcoherent, -, habsorbs⟩ := hcalls companies hcompanies
  have hstops : companies.outcome (Catalog.extend authors) =
      .error (.duplicateName "Company") := by rfl
  obtain ⟨moved, name, rest, hsplit, hnew, hmem, -, htakes⟩ :=
    (habsorbs authors hauthors).refused _ hstops
  have hload : Schema.loadAll companies.registry tagText = .ok tags.registry := tag_loads
  refine ⟨⟨hcoherent, hstops, moved, name, rest, hsplit, hnew, hmem, htakes⟩, ⟨hload, ?_⟩, ?_,
    ?_⟩
  · exact (hloaded _ _ _ hcompanies hload).2 tags (.register .empty tag) rfl
  · exact (hfails config [company, company] _).1 rfl
  · exact (hnames config [company] _ tags_build).1

end Sample

end Engine

end FilterQuery
