import FilterQuery.Engine.Basic
import FilterQuery.Proofs.Schema.Built
/-!
# The definitions of an engine

Definitions reach an engine directly, from files, or from texts.  If those that it is
given directly were built, all of them were.
-/

namespace FilterQuery

namespace Registry

variable {registry other : Registry}

theorem Built.insertAll (hbuilt : registry.Built) {definitions : List Definition}
    (hmore : ∀ definition ∈ definitions, definition.Built) :
    (registry.insertAll definitions).1.Built := by
  induction definitions generalizing registry with
  | nil => exact hbuilt
  | cons definition rest ih =>
      obtain ⟨hfirst, hrest⟩ := List.forall_mem_cons.1 hmore
      unfold Registry.insertAll insert?
      by_cases htaken : registry.contains definition.name
      · rw [if_pos htaken]
        exact hbuilt
      · rw [if_neg htaken]
        refine ih ?_ hrest
        intro found hmem
        rcases List.mem_append.1 hmem with hmem | hmem
        · exact hbuilt found hmem
        · exact List.mem_singleton.1 hmem ▸ hfirst

theorem Built.extend (hbuilt : registry.Built) (hother : other.Built) {larger : Registry}
    (hextend : Engine.extend registry other = .ok larger) : larger.Built := by
  have hall := hbuilt.insertAll hother
  unfold Engine.extend Registry.extend at hextend
  split at hextend
  · rename_i found heq
    rw [heq] at hall
    cases hextend
    exact hall
  · cases hextend

theorem Built.addText (hbuilt : registry.Built) {text : String} {larger : Registry}
    (hadd : Engine.addText registry text = .ok larger) : larger.Built := by
  obtain ⟨loaded, hload, hextend⟩ := Outcome.bind_eq_ok.1 hadd
  obtain ⟨documents, _, hload⟩ := Outcome.bind_eq_ok.1 (Outcome.mapError_eq_ok.1 hload)
  exact hbuilt.extend (Schema.built_of_ofDocuments hbuilt hload) hextend

theorem Built.addFile (hbuilt : registry.Built) {contentOf : String → Option String}
    {file : String} {larger : Registry}
    (hadd : Engine.addFile contentOf registry file = .ok larger) : larger.Built := by
  unfold Engine.addFile at hadd
  split at hadd
  · exact hbuilt.addText hadd
  · cases hadd

end Registry

namespace Engine

theorem built_of_build {contentOf : String → Option String} {config : Config}
    {definitions : List Definition} (hbuilt : ∀ definition ∈ definitions, definition.Built)
    {engine : Engine} (hengine : build contentOf config definitions = .ok engine) :
    engine.registry.Built := by
  obtain ⟨given, hgiven, hengine⟩ := Outcome.bind_eq_ok.1 hengine
  obtain ⟨withFiles, hfiles, hengine⟩ := Outcome.bind_eq_ok.1 hengine
  obtain ⟨withTexts, htexts, hengine⟩ := Outcome.bind_eq_ok.1 hengine
  cases hengine
  have hempty : ({} : Registry).Built := nofun
  have hfirst : given.Built := hempty.extend hbuilt hgiven
  have hsecond : withFiles.Built :=
    Outcome.foldlM_invariant (fun _ _ _ h hadd => Registry.Built.addFile h hadd) hfirst hfiles
  exact Outcome.foldlM_invariant (fun _ _ _ h hadd => Registry.Built.addText h hadd) hsecond htexts

theorem mem_of_definition {engine : Engine} {name : String} {definition : Definition}
    (hname : engine.definition name = .ok definition) :
    definition ∈ engine.registry.definitions := by
  unfold Engine.definition at hname
  split at hname
  · rename_i found hfind
    cases hname
    exact List.mem_of_find?_eq_some hfind
  · cases hname

end Engine

end FilterQuery
