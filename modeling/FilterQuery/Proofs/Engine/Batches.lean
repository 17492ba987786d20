import FilterQuery.Engine.Basic
import FilterQuery.Proofs.Schema.Linking
import FilterQuery.Proofs.Schema.Order
/-!
# Loading in batches

Documents reach an engine in batches, each of which may refer to those before it.  As long as
every batch loads, nothing hangs on where one ends and the next begins: all documents at once
make the same registry.  Within a batch, their order does not count either.
-/

namespace FilterQuery

namespace Registry

variable {registry larger : Registry} {definitions : List Definition}

theorem eq_of_insertAll (hinsert : registry.insertAll definitions = (larger, none)) :
    larger = ⟨registry.definitions ++ definitions⟩ := by
  induction definitions generalizing registry with
  | nil =>
      cases hinsert
      simp
  | cons definition rest ih =>
      unfold insertAll insert? at hinsert
      split at hinsert
      · rename_i next hnext
        split at hnext
        · cases hnext
        · cases hnext
          rw [ih hinsert, List.append_assoc]
          rfl
      · cases hinsert

end Registry

namespace Engine

variable {registry other larger : Registry}

theorem eq_of_extend (hextend : extend registry other = .ok larger) :
    larger = ⟨registry.definitions ++ other.definitions⟩ := by
  unfold extend Registry.extend at hextend
  split at hextend
  · rename_i found hfound
    cases hextend
    exact Registry.eq_of_insertAll hfound
  · cases hextend

theorem extend_of_ofDocuments {documents : List Yaml.Value}
    (hload : Schema.ofDocuments registry documents = .ok other) :
    extend registry other = .ok ⟨registry.definitions ++ other.definitions⟩ := by
  obtain ⟨hnodup, hnew⟩ := Schema.names_of_ofDocuments hload
  have htaken : registry.taken? other.definitions = none :=
    Registry.taken?_eq_none_iff.2 hnew
  unfold extend Registry.extend
  rw [Registry.insertAll_eq hnodup, htaken, Registry.fresh_of_new hnew]

/-- The registry with the definitions of documents, which may refer to those it holds. -/
def addDocuments (registry : Registry) (documents : List Yaml.Value) : Except Error Registry := do
  extend registry (← (Schema.ofDocuments registry documents).mapError .schema)

theorem addDocuments_eq_ok_iff {documents : List Yaml.Value} :
    addDocuments registry documents = .ok larger ↔
      ∃ loaded, Schema.ofDocuments registry documents = .ok loaded ∧
        larger = ⟨registry.definitions ++ loaded.definitions⟩ := by
  unfold addDocuments
  rw [Outcome.bind_eq_ok]
  constructor
  · rintro ⟨loaded, hload, hextend⟩
    exact ⟨loaded, Outcome.mapError_eq_ok.1 hload, eq_of_extend hextend⟩
  · rintro ⟨loaded, hload, rfl⟩
    exact ⟨loaded, Outcome.mapError_eq_ok.2 hload, extend_of_ofDocuments hload⟩

/-- Batches that load one on top of the other load at once. -/
theorem addDocuments_flatten {batches : List (List Yaml.Value)}
    (hbatches : batches.foldlM addDocuments registry = .ok larger) :
    addDocuments registry batches.flatten = .ok larger := by
  rw [addDocuments_eq_ok_iff]
  induction batches generalizing registry with
  | nil =>
      cases hbatches
      exact ⟨{}, rfl, by simp⟩
  | cons batch rest ih =>
      rw [List.foldlM_cons] at hbatches
      obtain ⟨next, hnext, hrest⟩ := Outcome.bind_eq_ok.1 hbatches
      obtain ⟨early, hearly, rfl⟩ := addDocuments_eq_ok_iff.1 hnext
      obtain ⟨late, hlate, rfl⟩ := ih hrest
      refine ⟨⟨early.definitions ++ late.definitions⟩, ?_, ?_⟩
      · exact Schema.ofDocuments_append hearly hlate
      · rw [List.append_assoc]

/-- Documents load in any order or in none, and as the same definitions under each name.
Batches of them that load one on top of the other load at once, as the same registry. -/
theorem loading_order (known : Registry) :
    (∀ documents reordered : List Yaml.Value, documents.Perm reordered →
      ((∃ registry, Schema.ofDocuments known documents = .ok registry) ↔
          ∃ registry, Schema.ofDocuments known reordered = .ok registry) ∧
        ∀ registry other, Schema.ofDocuments known documents = .ok registry →
          Schema.ofDocuments known reordered = .ok other →
          ∀ name, registry.get? name = other.get? name) ∧
      ∀ (batches : List (List Yaml.Value)) (final : Registry),
        batches.foldlM addDocuments known = .ok final →
        ∃ loaded, Schema.ofDocuments known batches.flatten = .ok loaded ∧
          extend known loaded = .ok final ∧ final.names = known.names ++ loaded.names ∧
          ∀ name, final.get? name = (known.get? name).or (loaded.get? name) := by
  constructor
  · intro documents reordered hperm
    constructor
    · constructor
      · rintro ⟨registry, hload⟩
        obtain ⟨other, hother, _⟩ := Schema.ofDocuments_perm hperm hload
        exact ⟨other, hother⟩
      · rintro ⟨registry, hload⟩
        obtain ⟨other, hother, _⟩ := Schema.ofDocuments_perm hperm.symm hload
        exact ⟨other, hother⟩
    · intro registry other hload hother name
      obtain ⟨found, hfound, hsame⟩ := Schema.ofDocuments_perm hperm hload
      rw [hother] at hfound
      cases hfound
      exact hsame name
  · intro batches final hbatches
    obtain ⟨loaded, hload, rfl⟩ := addDocuments_eq_ok_iff.1 (addDocuments_flatten hbatches)
    exact ⟨loaded, hload, extend_of_ofDocuments hload, List.map_append,
      Registry.get?_append known loaded⟩

/-! ## A forward reference, and the same documents in two batches -/

namespace Sample

open Schema.Sample

def authorBatch : List Yaml.Value := [document "Author" [.string "name"]]

def postBatch : List Yaml.Value :=
  [document "Post" [.string "title", reference "author" "Author",
    reference "publisher" "Company"]]

theorem author_loads : Schema.ofDocuments ⟨[company]⟩ authorBatch = .ok ⟨[author]⟩ := by
  have hread : Schema.outlines ⟨[company]⟩ [] authorBatch =
      .ok [⟨"Author", {}, [⟨"name", .inferred⟩]⟩] := by rfl
  exact Schema.ofDocuments_eq_ok_iff.2
    ⟨_, hread, .cons (.outline (fun _ => author) rfl nofun rfl) .nil⟩

theorem post_loads : Schema.ofDocuments ⟨[company, author]⟩ postBatch = .ok ⟨[post]⟩ := by
  have hread : Schema.outlines ⟨[company, author]⟩ [] postBatch =
      .ok [⟨"Post", {}, [⟨"title", .inferred⟩, ⟨"author", .reference "Author"⟩,
        ⟨"publisher", .reference "Company"⟩]⟩] := by rfl
  refine Schema.ofDocuments_eq_ok_iff.2 ⟨_, hread, .cons ?_ .nil⟩
  refine .outline (fun name => if name = "Author" then author else company) rfl ?_ rfl
  intro name hmem
  rcases List.mem_pair.1 hmem with rfl | rfl
  · exact .known rfl rfl
  · exact .known rfl rfl

theorem batches_load : [authorBatch, postBatch].foldlM addDocuments ⟨[company]⟩ =
    .ok ⟨[company, author, post]⟩ := by
  have hauthor : addDocuments ⟨[company]⟩ authorBatch = .ok ⟨[company, author]⟩ :=
    addDocuments_eq_ok_iff.2 ⟨_, author_loads, rfl⟩
  have hpost : addDocuments ⟨[company, author]⟩ postBatch = .ok ⟨[company, author, post]⟩ :=
    addDocuments_eq_ok_iff.2 ⟨_, post_loads, rfl⟩
  rw [List.foldlM_cons]
  exact Outcome.bind_eq_ok.2 ⟨_, hauthor, Outcome.bind_eq_ok.2 ⟨_, hpost, rfl⟩⟩

theorem blog_in_any_order :
    blog.Perm [authorBatch, postBatch].flatten ∧
      [authorBatch, postBatch].foldlM addDocuments ⟨[company]⟩ =
        .ok ⟨[company, author, post]⟩ ∧
      ∃ loaded, Schema.ofDocuments ⟨[company]⟩ [authorBatch, postBatch].flatten = .ok loaded ∧
        extend ⟨[company]⟩ loaded = .ok ⟨[company, author, post]⟩ ∧
        Registry.get? ⟨[post, author]⟩ "Post" = loaded.get? "Post" := by
  have hperm : blog.Perm [authorBatch, postBatch].flatten := .swap _ _ _
  obtain ⟨hreordered, hbatches⟩ := loading_order ⟨[company]⟩
  obtain ⟨loaded, hload, hextend, _⟩ := hbatches _ _ batches_load
  exact ⟨hperm, batches_load, loaded, hload, hextend,
    (hreordered _ _ hperm).2 _ _ blog_loads hload "Post"⟩

end Sample

/-! ## Files and texts of an engine -/

theorem addText_eq_ok_iff {text : String} :
    addText registry text = .ok larger ↔
      ∃ batch, Schema.documents text = .ok batch ∧ addDocuments registry batch = .ok larger := by
  simp only [addText, addDocuments, Schema.loadAll, Outcome.bind_eq_ok, Outcome.mapError_eq_ok]
  constructor
  · rintro ⟨loaded, ⟨batch, hbatch, hload⟩, hextend⟩
    exact ⟨batch, hbatch, loaded, hload, hextend⟩
  · rintro ⟨batch, hbatch, loaded, hload, hextend⟩
    exact ⟨loaded, ⟨batch, hbatch, hload⟩, hextend⟩

theorem batches_of_texts {texts : List String}
    (htexts : texts.foldlM addText registry = .ok larger) :
    ∃ batches, texts.mapM Schema.documents = .ok batches ∧
      batches.foldlM addDocuments registry = .ok larger := by
  induction texts generalizing registry with
  | nil => exact ⟨[], rfl, htexts⟩
  | cons text rest ih =>
      rw [List.foldlM_cons] at htexts
      obtain ⟨next, hnext, hrest⟩ := Outcome.bind_eq_ok.1 htexts
      obtain ⟨batch, hbatch, hadd⟩ := addText_eq_ok_iff.1 hnext
      obtain ⟨batches, hbatches, hfold⟩ := ih hrest
      refine ⟨batch :: batches, ?_, ?_⟩
      · rw [List.mapM_cons, hbatch, hbatches]
        rfl
      · rw [List.foldlM_cons, hadd]
        exact hfold

theorem texts_of_files {contentOf : String → Option String} {files : List String}
    (hfiles : files.foldlM (addFile contentOf) registry = .ok larger) :
    ∃ texts, files.mapM contentOf = some texts ∧
      texts.foldlM addText registry = .ok larger := by
  induction files generalizing registry with
  | nil => exact ⟨[], rfl, hfiles⟩
  | cons file rest ih =>
      rw [List.foldlM_cons] at hfiles
      obtain ⟨next, hnext, hrest⟩ := Outcome.bind_eq_ok.1 hfiles
      obtain ⟨texts, htexts, hfold⟩ := ih hrest
      unfold addFile at hnext
      split at hnext
      · rename_i text htext
        refine ⟨text :: texts, ?_, ?_⟩
        · rw [List.mapM_cons, htext, htexts]
          rfl
        · rw [List.foldlM_cons, hnext]
          exact hfold
      · cases hnext

/-- An engine holds what all documents of its files and texts load as at once, after the
definitions it was given. -/
theorem registry_of_build {contentOf : String → Option String} {config : Config}
    {definitions : List Definition} {engine : Engine}
    (hengine : build contentOf config definitions = .ok engine) :
    ∃ given texts batches, extend {} ⟨definitions⟩ = .ok given ∧
      config.files.mapM contentOf = some texts ∧
      (texts ++ config.contents).mapM Schema.documents = .ok batches ∧
      addDocuments given batches.flatten = .ok engine.registry := by
  obtain ⟨given, hgiven, hengine⟩ := Outcome.bind_eq_ok.1 hengine
  obtain ⟨withFiles, hfiles, hengine⟩ := Outcome.bind_eq_ok.1 hengine
  obtain ⟨withTexts, hcontents, hengine⟩ := Outcome.bind_eq_ok.1 hengine
  cases hengine
  obtain ⟨texts, htexts, hfold⟩ := texts_of_files hfiles
  have hall : (texts ++ config.contents).foldlM addText given = .ok withTexts := by
    rw [List.foldlM_append, hfold]
    exact hcontents
  obtain ⟨batches, hbatches, hload⟩ := batches_of_texts hall
  exact ⟨given, texts, batches, hgiven, htexts, hbatches, addDocuments_flatten hload⟩

end Engine

end FilterQuery
