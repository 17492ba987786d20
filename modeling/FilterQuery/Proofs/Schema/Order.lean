import FilterQuery.Proofs.Schema.Documents
import Mathlib.Data.List.Perm.Basic
/-!
# The order of documents

What a name resolves to depends on the outlines and the known definitions by what is found
under each name.  So it is the same for documents in any order, and it stays what it is when
documents that were known only as definitions are loaded together with the others.
-/

namespace FilterQuery.Schema

variable {all others : List Outline} {known larger : Registry}

/-- What a name resolves to carries over to where the same outlines are found, and what was
known resolves to what it was. -/
theorem Resolves.transfer
    (hfind : ∀ name outline, outline? all name = some outline →
      outline? others name = some outline)
    (hknown : ∀ name definition, outline? all name = none →
      known.get? name = some definition → Resolves others larger name definition)
    {name : String} {definition : Definition} (h : Resolves all known name definition) :
    Resolves others larger name definition := by
  induction h with
  | known hnew hget => exact hknown _ _ hnew hget
  | outline definitionOf hfound _ hbuild ih =>
      exact .outline definitionOf (hfind _ _ hfound) ih hbuild

/-! ## Documents in another order -/

theorem Resolves.perm (hperm : all.Perm others) (hnames : (all.map (·.name)).Nodup)
    {name : String} {definition : Definition} (h : Resolves all known name definition) :
    Resolves others known name definition := by
  have hfind (name : String) : outline? all name = outline? others name :=
    Lists.find?_perm hperm hnames name
  apply h.transfer
  · intro name outline hfound
    rw [← hfind name, hfound]
  · intro name definition hnew hget
    exact .known ((hfind name).symm.trans hnew) hget

theorem ofDocuments_perm {documents reordered : List Yaml.Value}
    (hperm : documents.Perm reordered) {registry : Registry}
    (hload : ofDocuments known documents = .ok registry) :
    ∃ other, ofDocuments known reordered = .ok other ∧
      ∀ name, registry.get? name = other.get? name := by
  obtain ⟨all, houtlines, hresolve⟩ := ofDocuments_eq_ok_iff.1 hload
  obtain ⟨hread, hnames, hnew⟩ := outlines_eq_ok_iff.1 houtlines
  obtain ⟨others, hothers, hall⟩ :=
    List.perm_comp_forall₂ hperm.symm (Outcome.mapM_eq_ok.1 hread)
  have hnames' : (others.map (·.name)).Nodup := (hall.map _).nodup_iff.2 hnames
  have houtlines' : outlines known [] reordered = .ok others :=
    outlines_eq_ok_iff.2 ⟨Outcome.mapM_eq_ok.2 hothers, hnames',
      fun outline hmem => hnew outline (hall.mem_iff.1 hmem)⟩
  obtain ⟨definitions, hdefinitions, hsame⟩ := List.perm_comp_forall₂ hall hresolve
  have hresolve' : ResolveTo others known others definitions :=
    hdefinitions.imp fun outline definition h => h.perm hall.symm hnames
  have hregistry : (registry.definitions.map (·.name)).Nodup := hresolve.names_eq ▸ hnames
  exact ⟨⟨definitions⟩, ofDocuments_eq_ok_iff.2 ⟨others, houtlines', hresolve'⟩,
    Lists.find?_perm hsame.symm hregistry⟩

/-! ## Documents one after the other -/

theorem outline?_append (first second : List Outline) (name : String) :
    outline? (first ++ second) name = (outline? first name).or (outline? second name) :=
  List.find?_append

theorem outline?_eq_none_of_get? (hnew : ∀ outline ∈ all, known.contains outline.name = false)
    {name : String} (hget : (known.get? name).isSome) : outline? all name = none := by
  rw [outline?, List.find?_eq_none]
  intro outline hmem heq
  have hname : outline.name = name := by simpa using heq
  have hcontains := hnew outline hmem
  rw [hname, Registry.contains_eq_isSome_get?, hget] at hcontains
  cases hcontains

section Append

variable {first second : List Outline} {early : Registry}
  (hfirst : ResolveTo first known first early.definitions)
  (hnames : (first.map (·.name)).Nodup)
  (hnew : ∀ outline ∈ first, known.contains outline.name = false)
  (hlater : ∀ outline ∈ second,
    Registry.contains ⟨known.definitions ++ early.definitions⟩ outline.name = false)

include hlater

theorem outline?_second_of_known {name : String} (hget : (known.get? name).isSome) :
    outline? second name = none := by
  apply outline?_eq_none_of_get? hlater
  rw [Registry.get?_append, Option.isSome_or, hget, Bool.true_or]

theorem Resolves.append_left {name : String} {definition : Definition}
    (h : Resolves first known name definition) :
    Resolves (first ++ second) known name definition := by
  apply h.transfer
  · intro name outline hfind
    rw [outline?_append, hfind, Option.some_or]
  · intro name definition hfind hget
    have hsecond : outline? second name = none :=
      outline?_second_of_known hlater (by rw [hget]; rfl)
    refine .known ?_ hget
    rw [outline?_append, hfind, hsecond, Option.or_none]

include hfirst hnames

theorem outline?_first_of_second {name : String} {outline : Outline}
    (hfind : outline? second name = some outline) : outline? first name = none := by
  cases hother : outline? first name with
  | none => rfl
  | some other =>
      have hmem : name ∈ first.map (·.name) :=
        List.mem_map.2 ⟨other, mem_of_outline? hother, name_of_outline? hother⟩
      obtain ⟨outline', houtline', hname⟩ := List.mem_map.1 hmem
      obtain ⟨definition, _, hresolves⟩ := Lists.exists_of_forall₂ hfirst.flip houtline'
      have hget : early.get? name = some definition :=
        (hfirst.get?_eq_some_iff hnames).2 ⟨hmem, hname ▸ hresolves⟩
      have hnone : outline? second name = none := by
        apply outline?_eq_none_of_get? hlater
        rw [Registry.get?_append, Option.isSome_or, hget, Option.isSome_some, Bool.or_true]
      rw [hnone] at hfind
      cases hfind

include hnew

theorem Resolves.append_right {name : String} {definition : Definition}
    (h : Resolves second ⟨known.definitions ++ early.definitions⟩ name definition) :
    Resolves (first ++ second) known name definition := by
  apply h.transfer
  · intro name outline hfind
    rw [outline?_append, outline?_first_of_second hfirst hnames hlater hfind, hfind,
      Option.none_or]
  · intro name definition hfind hget
    rw [Registry.get?_append] at hget
    rcases Option.or_eq_some_iff.1 hget with hget | ⟨_, hget⟩
    · refine .known ?_ hget
      have hnone : outline? first name = none :=
        outline?_eq_none_of_get? hnew (by rw [hget]; rfl)
      rw [outline?_append, hnone, hfind, Option.or_none]
    · exact ((hfirst.get?_eq_some_iff hnames).1 hget).2.append_left hlater

end Append

/-- Documents that load on top of others load together with them, as the same
definitions. -/
theorem ofDocuments_append {first second : List Yaml.Value} {early late : Registry}
    (hearly : ofDocuments known first = .ok early)
    (hlate : ofDocuments ⟨known.definitions ++ early.definitions⟩ second = .ok late) :
    ofDocuments known (first ++ second) =
      .ok ⟨early.definitions ++ late.definitions⟩ := by
  obtain ⟨all, houtlines, hresolve⟩ := ofDocuments_eq_ok_iff.1 hearly
  obtain ⟨more, hmore, hresolveMore⟩ := ofDocuments_eq_ok_iff.1 hlate
  obtain ⟨hread, hnames, hnew⟩ := outlines_eq_ok_iff.1 houtlines
  obtain ⟨hreadMore, hnamesMore, hlater⟩ := outlines_eq_ok_iff.1 hmore
  have hboth : outlines known [] (first ++ second) = .ok (all ++ more) := by
    refine outlines_eq_ok_iff.2 ⟨?_, ?_, ?_⟩
    · exact Outcome.mapM_eq_ok.2
        (List.rel_append (Outcome.mapM_eq_ok.1 hread) (Outcome.mapM_eq_ok.1 hreadMore))
    · rw [List.map_append, List.nodup_append]
      refine ⟨hnames, hnamesMore, ?_⟩
      -- A later name was new after the earlier documents had loaded.
      intro name hmem other hother heq
      obtain ⟨outline, houtline, rfl⟩ := List.mem_map.1 hother
      have hfind := outline?_of_mem hnamesMore houtline
      have hnone := outline?_first_of_second hresolve hnames hlater hfind
      exact not_mem_of_outline?_eq_none hnone (heq ▸ hmem)
    · intro outline hmem
      rcases List.mem_append.1 hmem with hmem | hmem
      · exact hnew outline hmem
      · have hcontains := hlater outline hmem
        rw [Registry.contains, List.any_append, Bool.or_eq_false_iff] at hcontains
        exact hcontains.1
  have hleft : List.Forall₂ (fun outline definition =>
      Resolves (all ++ more) known outline.name definition) all early.definitions :=
    hresolve.imp fun outline definition h => h.append_left hlater
  have hright : List.Forall₂ (fun outline definition =>
      Resolves (all ++ more) known outline.name definition) more late.definitions :=
    hresolveMore.imp fun outline definition h => h.append_right hresolve hnames hnew hlater
  exact ofDocuments_eq_ok_iff.2 ⟨all ++ more, hboth, List.rel_append hleft hright⟩

end FilterQuery.Schema
